import AuditRelay.Json.Reader

/-!
# AuditRelay.Json.Skip — passing over a value that nobody asked for

A member with an unknown name is passed over without building its value. The walk keeps the open
containers on a list, so it has no depth limit; it checks brackets, words and the shape of numbers
and strings, but neither the range of a number nor the pairing of surrogates.
-/

namespace AuditRelay.Scan

/-- An open container. -/
inductive Frame where
  | list
  | object
  deriving DecidableEq

def Frame.closer : Frame → UInt8
  | .list => octet ']'
  | .object => octet '\x7d'

/-- Passes over a string whose opening quote has been read. -/
def skipString : Octets → Except JsonFault Octets
  | [] => fail .endInString
  | b :: r =>
    if b = octet '"' then .ok r
    else if b = octet '\\' then
      match r with
      | [] => fail .endInString
      | e :: r =>
        if e = octet 'u' then
          match r with
          | h₁ :: h₂ :: h₃ :: h₄ :: r =>
            if (fourHex? h₁ h₂ h₃ h₄).isNone then fail .invalidEscape else skipString r
          | _ => fail .endInString
        else if (shortEscape? e).isSome then skipString r
        else fail .invalidEscape
    else if b < 0x20 then fail .controlCharacter
    else skipString r

/-- Passes over an exponent after its letter. -/
def skipExponent (bs : Octets) : Except JsonFault Octets :=
  let bs :=
    match bs with
    | [] => []
    | b :: r => if b = octet '+' || b = octet '-' then r else b :: r
  if startsWithDigit bs then .ok (skipDigits 0 bs).2 else fail .invalidNumber

/-- Passes over what may follow the digits before the point. -/
def skipAfterWhole (bs : Octets) : Except JsonFault Octets :=
  match bs with
  | [] => .ok []
  | b :: r =>
    if b = octet '.' then
      let (count, rest) := skipDigits 0 r
      if count = 0 then fail .invalidNumber
      else if startsWithExponent rest then skipExponent (rest.drop 1)
      else .ok rest
    else if startsWithExponent bs then skipExponent r
    else .ok bs

/-- Passes over a number after its sign. -/
def skipNumber : Octets → Except JsonFault Octets
  | [] => fail .invalidNumber
  | b :: r =>
    if b = octet '0' then
      if startsWithDigit r then fail .invalidNumber else skipAfterWhole r
    else if isDigit b then skipAfterWhole (skipDigits 0 r).2
    else fail .invalidNumber

/-- Passes over the name and the colon of a member. -/
def skipName (bs : Octets) : Except JsonFault Octets :=
  match skipBlanks bs with
  | [] => fail .endInObject
  | b :: r =>
    if b = octet '"' then
      match skipString r with
      | .error f => .error f
      | .ok rest => colon rest
    else fail .keyNotString

/-- What the walk does next. -/
inductive Walk where
  /-- A value starts. -/
  | value
  /-- A container has been opened, or an element of it passed over. -/
  | inside (frame : Frame) (afterElement : Bool)

/-- Passes over one value; `frames` are the containers around the present place, innermost first. -/
def skipLoop (walk : Walk) (frames : List Frame) (bs : Octets) : Nat → Except JsonFault Octets
  | 0 => fail .endInValue
  | n + 1 =>
    match walk with
    | .value =>
      match skipBlanks bs with
      | [] => fail .endInValue
      | b :: r =>
        if b = octet '[' then skipLoop (.inside .list false) frames r n
        else if b = octet '\x7b' then skipLoop (.inside .object false) frames r n
        else
          let leaf :=
            if b = octet 'n' then word ['u', 'l', 'l'] r
            else if b = octet 't' then word ['r', 'u', 'e'] r
            else if b = octet 'f' then word ['a', 'l', 's', 'e'] r
            else if b = octet '-' then skipNumber r
            else if isDigit b then skipNumber (b :: r)
            else if b = octet '"' then skipString r
            else fail .expectedValue
          match leaf with
          | .error f => .error f
          | .ok rest =>
            match frames with
            | [] => .ok rest
            | f :: fs => skipLoop (.inside f true) fs rest n
    | .inside frame afterElement =>
      match skipBlanks bs with
      | [] => fail (match frame with | .list => .endInList | .object => .endInObject)
      | b :: r =>
        if b = frame.closer then
          match frames with
          | [] => .ok r
          | f :: fs => skipLoop (.inside f true) fs r n
        else if afterElement && b != octet ',' then
          fail (match frame with
            | .list => .expectedListCommaOrEnd
            | .object => .expectedObjectCommaOrEnd)
        else
          let start := if afterElement then r else b :: r
          match frame with
          | .list => skipLoop .value (frame :: frames) start n
          | .object =>
            match skipName start with
            | .error f => .error f
            | .ok rest => skipLoop .value (frame :: frames) rest n

/-- Passes over one value. Every two rounds of the walk take an octet. -/
def skip (bs : Octets) : Except JsonFault Octets :=
  skipLoop .value [] bs (2 * bs.length + 2)

end AuditRelay.Scan
