import AuditRelay.Json.Reader

/-!
# AuditRelay.Json.Embedded — the values that texts and trees stand for

A value has the members of an object in the order of their names; of members with one name the last
wins. An object whose first member has the reserved name `Json.embeddedKey` stands for something
else: the member holds a JSON text, and the object is the value of that text. It may have no other
member.

A value comes straight from a text (`Json.ofText`), or from a tree that has been read before
(`Json.resolve`). Both settle names and embedded texts alike; they differ in which fault of a
damaged text they meet first, and in what they call a second member beside an embedded text. A later
member with the reserved name is an ordinary one. Putting names in order can make it the first, so
`resolve` is not the identity on values.
-/

namespace AuditRelay

namespace Json

/-- The reserved name of an embedded text. -/
def embeddedKey : String := "$serde_json::private::RawValue"

/-- What is asked for under the reserved name. -/
def embeddedShape : String := "raw value"

end Json

namespace Scan

/-! ## Values out of texts -/

/-- The octets behind the first name of an object, if that is the reserved one. -/
def embeddedStart? (bs : Octets) : Option Octets :=
  match skipBlanks bs with
  | [] => none
  | b :: r =>
    if b = octet '"' then
      match string r with
      | .ok (key, rest) => if key = Json.embeddedKey then some rest else none
      | .error _ => none
    else none

/-- The end of an object that may have no further member. -/
def closeObject (bs : Octets) : Except JsonFault Octets :=
  match skipBlanks bs with
  | [] => fail .endInObject
  | b :: r =>
    if b = octet '\x7d' then .ok r
    else if b = octet ',' then fail .trailingComma
    else fail .trailingCharacters

/-- Reads an embedded text from behind the reserved name to the end of the object; `whole` gives the
value of a text. -/
def embeddedValue (whole : Octets → Except JsonFault Json) (bs : Octets) : Reading Json :=
  match colon bs with
  | .error f => .error f
  | .ok bs =>
    match stringValue Json.embeddedShape bs with
    | .error f => .error f
    | .ok (s, rest) =>
      match whole (Text.octets s) with
      | .error f => .error f
      | .ok v => (closeObject rest).map (v, ·)

/-- A member read as a value and put under its name. -/
def putMember (value : Octets → Reading Json) (ms : Members) (key : String) (bs : Octets) :
    Reading Members :=
  mapResult (fun v => Named.insert key v ms) (memberValue value bs)

/-- Reads one value, opening at most `depth` containers inside each other; `whole` gives the value
of a text. -/
def valueBy (whole : Octets → Except JsonFault Json) : (depth : Nat) → Octets → Reading Json
  | 0, bs => anyValue (fun _ => fail .tooDeep) (fun _ => fail .tooDeep) bs
  | d + 1, bs =>
    anyValue (listOf (valueBy whole d))
      (fun r =>
        match embeddedStart? r with
        | some rest => embeddedValue whole rest
        | none =>
          mapResult .object (members (putMember (valueBy whole d)) true [] r (r.length + 1))) bs

/-- The value of a whole text in which embedded texts stand less than `levels` deep. Each of them
may open `Json.maxDepth` containers of its own. -/
def wholeValue : (levels : Nat) → Octets → Except JsonFault Json
  | 0, _ => fail .tooDeep
  | n + 1, bs => complete (valueBy (wholeValue n) Json.maxDepth bs)

/-- Reads one value. An embedded text is shorter than the text around it, so there are fewer levels
than octets. -/
def value (depth : Nat) (bs : Octets) : Reading Json :=
  valueBy (wholeValue bs.length) depth bs

end Scan

namespace Json

/-- The value of a text. -/
def ofOctets (bs : Octets) : Except JsonFault Json :=
  Scan.complete (Scan.value maxDepth bs)

def ofText (s : String) : Except JsonFault Json :=
  ofOctets (Text.octets s)

/-! ## Values out of trees -/

/-- What stands under the reserved name, if that is the first name. -/
def embedded? : List (String × Json) → Option Json
  | [] => none
  | (k, v) :: _ => if k = embeddedKey then some v else none

/-- The value of what stands under the reserved name, in an object of `size` members. -/
def ofEmbedded (size : Nat) : Json → Except JsonFault Json
  | .string s =>
    match ofText s with
    | .error f => .error f
    | .ok v =>
      if size = 1 then .ok v else .error (.misshapen (.wrongLength size "1 element in map"))
  | v => .error (.misshapen (.wrongType v.seen embeddedShape))

mutual

/-- The value that a tree stands for. -/
def resolve : Json → Except JsonFault Json
  | .array items => (resolveItems items).map .array
  | .object ms =>
    match embedded? ms with
    | some v => ofEmbedded ms.length v
    | none => (resolveMembers [] ms).map .object
  | .null => .ok .null
  | .bool b => .ok (.bool b)
  | .number n => .ok (.number n)
  | .string s => .ok (.string s)

def resolveItems : List Json → Except JsonFault (List Json)
  | [] => .ok []
  | v :: vs =>
    match resolve v with
    | .error f => .error f
    | .ok v => (resolveItems vs).map (v :: ·)

/-- Puts the values of members under their names, one after the other. -/
def resolveMembers : Members → List (String × Json) → Except JsonFault Members
  | acc, [] => .ok acc
  | acc, (k, v) :: ms =>
    match resolve v with
    | .error f => .error f
    | .ok v => resolveMembers (Named.insert k v acc) ms

end

end Json

end AuditRelay
