import AuditRelay.Json.Fault

/-!
# AuditRelay.Json.Record — parameters out of JSON values

A record of parameters is read from an object, whose unknown members are ignored, or from a list,
whose elements are the fields in their order; missing fields keep their defaults. An optional
parameter may be `null`.
-/

namespace AuditRelay.Json

/-- A whole number from zero to `limit`. -/
def toNat (limit : Nat) (expected : String) (v : Json) : Except ShapeFault Nat :=
  match v with
  | .number (.int n) =>
    if 0 ≤ n ∧ n ≤ limit then .ok n.toNat else .error (.wrongValue v.seen expected)
  | _ => .error (.wrongType v.seen expected)

def toText (expected : String) (v : Json) : Except ShapeFault String :=
  match v with
  | .string s => .ok s
  | _ => .error (.wrongType v.seen expected)

def toBool (v : Json) : Except ShapeFault Bool :=
  match v with
  | .bool b => .ok b
  | _ => .error (.wrongType v.seen "a boolean")

/-- Nothing for `null`. -/
def optional {α : Type} (read : Json → Except ShapeFault α) (v : Json) :
    Except ShapeFault (Option α) :=
  match v with
  | .null => .ok none
  | v => (read v).map some

/-- A record that starts at its defaults and takes one field after the other. -/
def toRecord {α : Type} (shape : String) (fields : List String)
    (set : α → String → Json → Except ShapeFault α) (defaults : α) (v : Json) :
    Except ShapeFault α :=
  match v with
  | .object ms => ms.foldlM (fun a (k, v) => if k ∈ fields then set a k v else .ok a) defaults
  | .array vs =>
    match (fields.zip vs).foldlM (fun a (k, v) => set a k v) defaults with
    | .error f => .error f
    | .ok a =>
      if fields.length < vs.length then
        .error (.wrongLength vs.length "fewer elements in array")
      else .ok a
  | _ => .error (.wrongType v.seen shape)

end AuditRelay.Json
