import AuditRelay.Json.Scan

/-!
# AuditRelay.Json.Reader — JSON texts as trees

One pair of loops, `elements` and `members`, walks lists and objects; what is done with an element
or a member is a parameter. `tree` reads a value as it stands: the members of an object in the order
of the text, repeated names included. It recurses on the number of containers that may still be
opened, `Json.maxDepth` at the start, and the loops count down the octets that are left, of which
every round takes at least one.
-/

namespace AuditRelay

/-- How many containers a text may nest. -/
def Json.maxDepth : Nat := 127

namespace Scan

/-! ## Lists and objects -/

/-- The elements of a list up to its closing bracket. `item` reads one element into the state. -/
def elements {σ : Type} (item : σ → Octets → Reading σ) (first : Bool) (state : σ) (bs : Octets) :
    Nat → Reading σ
  | 0 => fail .endInList
  | n + 1 =>
    match skipBlanks bs with
    | [] => fail .endInList
    | b :: r =>
      if b = octet ']' then .ok (state, r)
      else if first then
        match item state (b :: r) with
        | .error f => .error f
        | .ok (state, rest) => elements item false state rest n
      else if b = octet ',' then
        match skipBlanks r with
        | [] => fail .endInValue
        | c :: r =>
          if c = octet ']' then fail .trailingComma
          else
            match item state (c :: r) with
            | .error f => .error f
            | .ok (state, rest) => elements item false state rest n
      else fail .expectedListCommaOrEnd

/-- One member of an object from its name on. `entry` gets the name and the octets after it. -/
def member {σ : Type} (entry : σ → String → Octets → Reading σ) (state : σ) : Octets → Reading σ
  | [] => fail .endInValue
  | b :: r =>
    if b = octet '"' then
      match string r with
      | .error f => .error f
      | .ok (key, rest) => entry state key rest
    else fail .keyNotString

/-- The members of an object up to its closing brace. -/
def members {σ : Type} (entry : σ → String → Octets → Reading σ) (first : Bool) (state : σ)
    (bs : Octets) : Nat → Reading σ
  | 0 => fail .endInObject
  | n + 1 =>
    match skipBlanks bs with
    | [] => fail .endInObject
    | b :: r =>
      if b = octet '\x7d' then .ok (state, r)
      else if first then
        match member entry state (b :: r) with
        | .error f => .error f
        | .ok (state, rest) => members entry false state rest n
      else if b = octet ',' then
        match skipBlanks r with
        | [] => fail .endInValue
        | c :: r =>
          if c = octet '\x7d' then fail .trailingComma
          else
            match member entry state (c :: r) with
            | .error f => .error f
            | .ok (state, rest) => members entry false state rest n
      else fail .expectedObjectCommaOrEnd

/-! ## Values -/

/-- Applies a function to the result of a reading. -/
def mapResult {α β : Type} (f : α → β) : Reading α → Reading β
  | .error e => .error e
  | .ok (a, rest) => .ok (f a, rest)

/-- Reads one value; `list` and `object` read a container from behind its opening bracket. -/
def anyValue (list object : Octets → Reading Json) (bs : Octets) : Reading Json :=
  match skipBlanks bs with
  | [] => fail .endInValue
  | b :: r =>
    if b = octet 'n' then (word ['u', 'l', 'l'] r).map (.null, ·)
    else if b = octet 't' then (word ['r', 'u', 'e'] r).map (.bool true, ·)
    else if b = octet 'f' then (word ['a', 'l', 's', 'e'] r).map (.bool false, ·)
    else if b = octet '-' then mapResult .number (number true r)
    else if isDigit b then mapResult .number (number false (b :: r))
    else if b = octet '"' then mapResult .string (string r)
    else if b = octet '[' then list r
    else if b = octet '\x7b' then object r
    else fail .expectedValue

/-- An element read as a value and put before those already read. -/
def pushItem (value : Octets → Reading Json) (acc : List Json) (bs : Octets) :
    Reading (List Json) :=
  match value bs with
  | .error f => .error f
  | .ok (v, rest) => .ok (v :: acc, rest)

/-- The elements of a list from behind its opening bracket. -/
def listOf (value : Octets → Reading Json) (bs : Octets) : Reading Json :=
  mapResult (fun vs => .array vs.reverse)
    (elements (pushItem value) true [] bs (bs.length + 1))

/-- The value of a member from behind its name. -/
def memberValue (value : Octets → Reading Json) (bs : Octets) : Reading Json :=
  match colon bs with
  | .error f => .error f
  | .ok bs => value bs

/-- A member read as a value and put before those already read. -/
def pushMember (value : Octets → Reading Json) (acc : List (String × Json)) (key : String)
    (bs : Octets) : Reading (List (String × Json)) :=
  mapResult (fun v => (key, v) :: acc) (memberValue value bs)

/-- Reads one value as it stands, opening at most `depth` containers inside each other. -/
def tree : (depth : Nat) → Octets → Reading Json
  | 0, bs => anyValue (fun _ => fail .tooDeep) (fun _ => fail .tooDeep) bs
  | d + 1, bs =>
    anyValue (listOf (tree d))
      (fun r => mapResult (fun ms => .object ms.reverse)
        (members (pushMember (tree d)) true [] r (r.length + 1))) bs

/-- The result of a reading that must leave nothing but blanks. -/
def complete {α : Type} (r : Reading α) : Except JsonFault α :=
  match r with
  | .error f => .error f
  | .ok (a, rest) => if (skipBlanks rest).isEmpty then .ok a else fail .trailingCharacters

/-! ## A value of the wrong type -/

/-- What stands at the first octet, where something else is asked for. -/
def seenAt : Octets → Except JsonFault Seen
  | [] => fail .expectedValue
  | b :: r =>
    if b = octet 'n' then (word ['u', 'l', 'l'] r).map fun _ => .null
    else if b = octet 't' then (word ['r', 'u', 'e'] r).map fun _ => .bool true
    else if b = octet 'f' then (word ['a', 'l', 's', 'e'] r).map fun _ => .bool false
    else if b = octet '-' then (number true r).map fun p => .number p.1
    else if isDigit b then (number false (b :: r)).map fun p => .number p.1
    else if b = octet '"' then (string r).map fun p => .string p.1
    else if b = octet '[' then .ok .array
    else if b = octet '\x7b' then .ok .object
    else fail .expectedValue

/-- Refuses the value that starts at the first octet. -/
def refuse {α : Type} (expected : String) (bs : Octets) : Except JsonFault α :=
  match seenAt bs with
  | .error f => .error f
  | .ok seen => .error (.misshapen (.wrongType seen expected))

/-- Reads a value that must be a string. -/
def stringValue (expected : String) (bs : Octets) : Reading String :=
  match skipBlanks bs with
  | [] => fail .endInValue
  | b :: r => if b = octet '"' then string r else refuse expected (b :: r)

end Scan

end AuditRelay
