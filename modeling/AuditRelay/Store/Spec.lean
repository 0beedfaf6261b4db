import AuditRelay.Fault
import AuditRelay.Json.Embedded
import AuditRelay.Json.Printer
import AuditRelay.Json.Skip

/-!
# AuditRelay.Store.Spec — which store, with which parameters

A spec names the type of a store and carries its parameters as a JSON value. Its text is an object
with the members `type` and `params`, or a list of the two; the parameters may be left out.
-/

namespace AuditRelay

/-- The type of a store and its parameters. -/
structure StoreSpec where
  kind : String
  params : Json
  deriving DecidableEq, Repr

namespace StoreSpec

/-- What a reader of specs calls the shape it asks for. -/
def shape : String := "struct StoreSpec"

/-- A store in memory with its defaults. -/
def default : StoreSpec := ⟨"memory", .null⟩

/-- The spec as text, the type first. -/
def written (s : StoreSpec) : Octets :=
  '\x7b'.toUInt8 ::
    (Json.writtenMembers [("type", .string s.kind), ("params", s.params)] ++ ['\x7d'.toUInt8])

/-- What has been read of a spec. -/
structure Draft where
  kind : Option String
  params : Option Json

/-- Reads a member from behind its name. -/
def readMember (depth : Nat) (draft : Draft) (key : String) (bs : Octets) : Scan.Reading Draft :=
  if key = "type" then
    if draft.kind.isSome then .error (.misshapen (.duplicateField key))
    else
      match Scan.colon bs with
      | .error f => .error f
      | .ok bs =>
        Scan.mapResult (fun s => { draft with kind := some s }) (Scan.stringValue "a string" bs)
  else if key = "params" then
    if draft.params.isSome then .error (.misshapen (.duplicateField key))
    else
      match Scan.colon bs with
      | .error f => .error f
      | .ok bs => Scan.mapResult (fun v => { draft with params := some v }) (Scan.value depth bs)
  else
    match Scan.colon bs with
    | .error f => .error f
    | .ok bs => (Scan.skip bs).map (draft, ·)

/-- Whether a list has a next element, and the octets from there or from the closing bracket on. -/
def nextElement (first : Bool) (bs : Octets) : Scan.Reading Bool :=
  match Scan.skipBlanks bs with
  | [] => Scan.fail .endInList
  | b :: r =>
    if b = Scan.octet ']' then .ok (false, b :: r)
    else if first then .ok (true, b :: r)
    else if b = Scan.octet ',' then
      match Scan.skipBlanks r with
      | [] => Scan.fail .endInValue
      | c :: r => if c = Scan.octet ']' then Scan.fail .trailingComma else .ok (true, c :: r)
    else Scan.fail .expectedListCommaOrEnd

/-- The end of a list whose fields have all been read. -/
def closeList (bs : Octets) : Except JsonFault Octets :=
  match Scan.skipBlanks bs with
  | [] => Scan.fail .endInList
  | b :: r =>
    if b = Scan.octet ']' then .ok r
    else if b = Scan.octet ',' then
      match Scan.skipBlanks r with
      | [] => Scan.fail .trailingCharacters
      | c :: _ => Scan.fail (if c = Scan.octet ']' then .trailingComma else .trailingCharacters)
    else Scan.fail .trailingCharacters

/-- Reads a spec that is a list, from behind the opening bracket. -/
def readList (depth : Nat) (bs : Octets) : Except JsonFault (StoreSpec × Octets) := do
  let (any, bs) ← nextElement true bs
  if !any then
    .error (.misshapen (.wrongLength 0 (shape ++ " with 2 elements")))
  else
    let (kind, bs) ← Scan.stringValue "a string" bs
    let (more, bs) ← nextElement false bs
    if !more then return (⟨kind, .null⟩, ← closeList bs)
    else
      let (params, bs) ← Scan.value depth bs
      return (⟨kind, params⟩, ← closeList bs)

/-- The draft as a spec. -/
def Draft.finish (draft : Draft) : Except JsonFault StoreSpec :=
  match draft.kind with
  | some kind => .ok ⟨kind, draft.params.getD .null⟩
  | none => .error (.misshapen (.missingField "type"))

def reading (bs : Octets) : Scan.Reading StoreSpec :=
  match Scan.skipBlanks bs with
  | [] => Scan.fail .endInValue
  | b :: r =>
    if b = Scan.octet '[' then readList (Json.maxDepth - 1) r
    else if b = Scan.octet '\x7b' then
      match Scan.members (readMember (Json.maxDepth - 1)) true ⟨none, none⟩ r (r.length + 1) with
      | .error f => .error f
      | .ok (draft, rest) => draft.finish.map (·, rest)
    else Scan.refuse shape (b :: r)

/-- The spec that a text holds. -/
def parse (s : String) : Except Fault StoreSpec :=
  (Scan.complete (reading (Text.octets s))).mapError fun f => .invalidConfig (.specMalformed f)

end StoreSpec

end AuditRelay
