import AuditRelay.Json.Fault
import AuditRelay.Text.Utf8

/-!
# AuditRelay.Json.Scan — blanks, words, strings and numbers of JSON

Each scanner works on the octets that are still to be read and gives back the rest. Strings are
collected as octets, with escapes resolved, and decoded at the closing quote. Numbers keep a
significand of 64 bits: digits that no longer fit are dropped, those before the point being counted
in the exponent.
-/

namespace AuditRelay.Scan

/-- A reading gives its result and the octets after it. -/
abbrev Reading (α : Type) := Except JsonFault (α × Octets)

/-- A reading stopped by a rule of JSON. -/
abbrev fail {α : Type} (f : SyntaxFault) : Except JsonFault α := .error (.malformed f)

/-- The octet of an ASCII character. -/
abbrev octet (c : Char) : UInt8 := c.toUInt8

def isDigit (b : UInt8) : Bool := octet '0' ≤ b && b ≤ octet '9'

/-- The value of a decimal digit. -/
def digitValue (b : UInt8) : Nat := b.toNat - 48

/-! ## Blanks and words -/

def isJsonBlank (b : UInt8) : Bool :=
  b == octet ' ' || b == octet '\n' || b == octet '\t' || b == octet '\r'

/-- The octets from the first that is no blank on. -/
def skipBlanks : Octets → Octets
  | [] => []
  | b :: r => if isJsonBlank b then skipBlanks r else b :: r

/-- Passes over the rest of a word whose first letter has been seen. -/
def word : List Char → Octets → Except JsonFault Octets
  | [], bs => .ok bs
  | _ :: _, [] => fail .endInValue
  | c :: cs, b :: r => if b = octet c then word cs r else fail .expectedWord

/-- The colon between a name and its value. -/
def colon (bs : Octets) : Except JsonFault Octets :=
  match skipBlanks bs with
  | [] => fail .endInObject
  | b :: r => if b = octet ':' then .ok r else fail .expectedColon

/-! ## Strings -/

/-- The value of a hexadecimal digit of either case. -/
def hexValue? (b : UInt8) : Option Nat :=
  let n := b.toNat
  if 48 ≤ n ∧ n ≤ 57 then some (n - 48)
  else if 65 ≤ n ∧ n ≤ 70 then some (n - 55)
  else if 97 ≤ n ∧ n ≤ 102 then some (n - 87)
  else none

/-- The value of four hexadecimal digits. -/
def fourHex? (a b c d : UInt8) : Option Nat := do
  return (((← hexValue? a) * 16 + (← hexValue? b)) * 16 + (← hexValue? c)) * 16 + (← hexValue? d)

/-- The octet that a one-letter escape stands for. -/
def shortEscape? (b : UInt8) : Option UInt8 :=
  if b = octet '"' || b = octet '\\' || b = octet '/' then some b
  else if b = octet 'b' then some 8
  else if b = octet 'f' then some 12
  else if b = octet 'n' then some 10
  else if b = octet 'r' then some 13
  else if b = octet 't' then some 9
  else none

/-- The encoding of a code point that is not a surrogate, last octet first. -/
def reversedOctets (n : Nat) : Octets :=
  (String.utf8EncodeChar (Char.ofNat n)).reverse

def isLeadSurrogate (n : Nat) : Bool := 0xD800 ≤ n && n ≤ 0xDBFF

def isTrailSurrogate (n : Nat) : Bool := 0xDC00 ≤ n && n ≤ 0xDFFF

/-- The code point of a pair of surrogates. -/
def pairedSurrogates (lead trail : Nat) : Nat :=
  (lead - 0xD800) * 0x400 + (trail - 0xDC00) + 0x10000

/-- The octets of a string up to its closing quote, escapes resolved; `acc` holds those already
seen, last first. -/
def stringOctets (acc : Octets) : Octets → Reading Octets
  | [] => fail .endInString
  | b :: r =>
    if b = octet '"' then .ok (acc.reverse, r)
    else if b = octet '\\' then
      match r with
      | [] => fail .endInString
      | e :: r =>
        if e = octet 'u' then
          match r with
          | h₁ :: h₂ :: h₃ :: h₄ :: r =>
            match fourHex? h₁ h₂ h₃ h₄ with
            | none => fail .invalidEscape
            | some n =>
              if isTrailSurrogate n then fail .loneSurrogate
              else if isLeadSurrogate n then
                match r with
                | [] => fail .endInString
                | s :: r =>
                  if s ≠ octet '\\' then fail .endInEscape
                  else
                    match r with
                    | [] => fail .endInString
                    | u :: r =>
                      if u ≠ octet 'u' then fail .endInEscape
                      else
                        match r with
                        | t₁ :: t₂ :: t₃ :: t₄ :: r =>
                          match fourHex? t₁ t₂ t₃ t₄ with
                          | none => fail .invalidEscape
                          | some m =>
                            if isTrailSurrogate m then
                              stringOctets (reversedOctets (pairedSurrogates n m) ++ acc) r
                            else fail .loneSurrogate
                        | _ => fail .endInString
              else stringOctets (reversedOctets n ++ acc) r
          | _ => fail .endInString
        else
          match shortEscape? e with
          | some x => stringOctets (x :: acc) r
          | none => fail .invalidEscape
    else if b < 0x20 then fail .controlCharacter
    else stringOctets (b :: acc) r

/-- The string whose opening quote has been read. -/
def string (bs : Octets) : Reading String :=
  match stringOctets [] bs with
  | .error f => .error f
  | .ok (octets, rest) =>
    match Text.ofOctets? octets with
    | some s => .ok (s, rest)
    | none => fail .invalidCodePoint

/-! ## Numbers -/

/-- One more than the largest significand. -/
def significandLimit : Nat := UInt64.size

/-- Takes digits as long as the significand fits, and counts them. -/
def digits (significand count : Nat) : Octets → Nat × Nat × Octets
  | [] => (significand, count, [])
  | b :: r =>
    if isDigit b ∧ significand * 10 + digitValue b < significandLimit then
      digits (significand * 10 + digitValue b) (count + 1) r
    else (significand, count, b :: r)

/-- Passes over digits and counts them. -/
def skipDigits (count : Nat) : Octets → Nat × Octets
  | [] => (count, [])
  | b :: r => if isDigit b then skipDigits (count + 1) r else (count, b :: r)

/-- Whether a digit comes next. -/
def startsWithDigit : Octets → Bool
  | [] => false
  | b :: _ => isDigit b

/-- Whether an exponent comes next. -/
def startsWithExponent : Octets → Bool
  | [] => false
  | b :: _ => b = octet 'e' || b = octet 'E'

/-- The double with a sign. -/
def signed (negative : Bool) (d : Double) : Number :=
  .real (if negative then d.neg else d)

/-- The double of a decimal that has been read. -/
def realOf (negative : Bool) (significand : Nat) (exponent : Int) (rest : Octets) :
    Reading Number :=
  match (Scaled.mk significand exponent).toDouble? with
  | some d => .ok (signed negative d, rest)
  | none => fail .numberOutOfRange

/-- The largest exponent that is counted. -/
def exponentLimit : Nat := Nat.pow 2 31 - 1

/-- Takes the digits of an exponent, or finds that they pass the limit. -/
def exponentDigits (exponent : Nat) : Octets → Option (Nat × Octets)
  | [] => some (exponent, [])
  | b :: r =>
    if isDigit b then
      if exponent * 10 + digitValue b ≤ exponentLimit then
        exponentDigits (exponent * 10 + digitValue b) r
      else none
    else some (exponent, b :: r)

/-- The exponent after its letter, added to `start`. An exponent past the limit is refused when it
would make a number that is not zero infinite, and else makes it zero. -/
def exponent (negative : Bool) (significand : Nat) (start : Int) (bs : Octets) : Reading Number :=
  let (down, bs) :=
    match bs with
    | [] => (false, [])
    | b :: r =>
      if b = octet '+' then (false, r)
      else if b = octet '-' then (true, r)
      else (false, b :: r)
  match bs with
  | [] => fail .endInValue
  | b :: r =>
    if isDigit b then
      match exponentDigits (digitValue b) r with
      | some (e, rest) =>
        let limit : Int := exponentLimit
        let sum := if down then start - e else start + e
        realOf negative significand (max (-limit - 1) (min limit sum)) rest
      | none =>
        if significand ≠ 0 ∧ !down then fail .numberOutOfRange
        else .ok (signed negative .zero, (skipDigits 0 r).2)
    else fail .invalidNumber

/-- The digits after the point; `start` counts the dropped digits before it. -/
def fraction (negative : Bool) (significand : Nat) (start : Int) (bs : Octets) : Reading Number :=
  let (significand, count, rest) := digits significand 0 bs
  if startsWithDigit rest then
    let rest := (skipDigits 0 rest).2
    if startsWithExponent rest then exponent negative significand (start - count) (rest.drop 1)
    else realOf negative significand (start - count) rest
  else if count = 0 then
    if rest.isEmpty then fail .endInValue else fail .invalidNumber
  else if startsWithExponent rest then exponent negative significand (start - count) (rest.drop 1)
  else realOf negative significand (start - count) rest

/-- A whole number; a negative one below 64 bits, and minus zero, are doubles. -/
def whole (negative : Bool) (significand : Nat) : Number :=
  if !negative then .int significand
  else if 0 < significand ∧ significand ≤ Nat.pow 2 63 then .int (-significand)
  else signed true (.ofFloat significand.toUInt64.toFloat)

/-- What follows the digits before the point. -/
def afterWhole (negative : Bool) (significand : Nat) (bs : Octets) : Reading Number :=
  match bs with
  | [] => .ok (whole negative significand, [])
  | b :: r =>
    if b = octet '.' then fraction negative significand 0 r
    else if startsWithExponent bs then exponent negative significand 0 r
    else .ok (whole negative significand, bs)

/-- What follows when digits before the point were dropped. -/
def afterDropped (negative : Bool) (significand : Nat) (bs : Octets) : Reading Number :=
  let (dropped, bs) := skipDigits 0 bs
  match bs with
  | [] => realOf negative significand dropped []
  | b :: r =>
    if b = octet '.' then fraction negative significand dropped r
    else if startsWithExponent bs then exponent negative significand dropped r
    else realOf negative significand dropped bs

/-- The number after its sign. -/
def number (negative : Bool) : Octets → Reading Number
  | [] => fail .endInValue
  | b :: r =>
    if b = octet '0' then
      if startsWithDigit r then fail .invalidNumber else afterWhole negative 0 r
    else if isDigit b then
      let (significand, _, rest) := digits (digitValue b) 1 r
      if startsWithDigit rest then afterDropped negative significand rest
      else afterWhole negative significand rest
    else fail .invalidNumber

end AuditRelay.Scan
