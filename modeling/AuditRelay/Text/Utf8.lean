/-!
# AuditRelay.Text.Utf8 — octets as text

Buffer files hold octets. A string inside a record is read strictly (`ofOctets?`); a line that is
set aside as damaged is shown with every ill-formed stretch replaced by one `U+FFFD` (`lossy`). A
stretch is the longest start of a well-formed character that the following octet breaks off.

The lossy scan keeps what is owed: how many octets are missing, the range of the next one, and the
bits read so far.
-/

namespace AuditRelay

/-- A sequence of octets, such as the contents of a file. -/
abbrev Octets := List UInt8

namespace Text

/-- The text whose encoding the octets are, if there is one. -/
def ofOctets? (bs : Octets) : Option String :=
  String.fromUTF8? ⟨bs.toArray⟩

/-- The encoding of a text. -/
def octets (s : String) : Octets :=
  s.toList.flatMap String.utf8EncodeChar

/-- What a started character still needs. -/
structure Owed where
  count : Nat
  low : Nat
  high : Nat
  bits : Nat

/-- What an octet makes of the scan: a character, a started character, or nothing well-formed. -/
inductive Start where
  | char (c : Char)
  | owed (o : Owed)
  | broken

/-- The first octet of a character decides its length and the range of the second. -/
def startOf (b : UInt8) : Start :=
  let n := b.toNat
  if n < 0x80 then .char (Char.ofNat n)
  else if n < 0xC2 then .broken
  else if n < 0xE0 then .owed ⟨1, 0x80, 0xBF, n % 32⟩
  else if n = 0xE0 then .owed ⟨2, 0xA0, 0xBF, n % 16⟩
  else if n = 0xED then .owed ⟨2, 0x80, 0x9F, n % 16⟩
  else if n < 0xF0 then .owed ⟨2, 0x80, 0xBF, n % 16⟩
  else if n = 0xF0 then .owed ⟨3, 0x90, 0xBF, n % 8⟩
  else if n < 0xF4 then .owed ⟨3, 0x80, 0xBF, n % 8⟩
  else if n = 0xF4 then .owed ⟨3, 0x80, 0x8F, n % 8⟩
  else .broken

/-- A scan in progress: what is owed, and the characters seen, last first. -/
structure LossyScan where
  owed : Option Owed
  seen : List Char

namespace LossyScan

/-- Takes the first octet of a character. -/
def start (s : LossyScan) (b : UInt8) : LossyScan :=
  match startOf b with
  | .char c => ⟨none, c :: s.seen⟩
  | .owed o => ⟨some o, s.seen⟩
  | .broken => ⟨none, '\uFFFD' :: s.seen⟩

/-- Takes one octet. An octet that breaks a character off starts the next one. -/
def step (s : LossyScan) (b : UInt8) : LossyScan :=
  match s.owed with
  | none => s.start b
  | some o =>
    if o.low ≤ b.toNat ∧ b.toNat ≤ o.high then
      let bits := o.bits * 64 + b.toNat % 64
      if o.count = 1 then ⟨none, Char.ofNat bits :: s.seen⟩
      else ⟨some ⟨o.count - 1, 0x80, 0xBF, bits⟩, s.seen⟩
    else start ⟨none, '\uFFFD' :: s.seen⟩ b

/-- The characters of a finished scan. -/
def finish (s : LossyScan) : List Char :=
  match s.owed with
  | none => s.seen.reverse
  | some _ => ('\uFFFD' :: s.seen).reverse

end LossyScan

/-- The octets as text, whatever they are: `U+FFFD` stands for each ill-formed stretch. -/
def lossy (bs : Octets) : String :=
  String.ofList (bs.foldl LossyScan.step ⟨none, []⟩).finish

end Text

end AuditRelay
