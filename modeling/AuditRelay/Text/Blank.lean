/-!
# AuditRelay.Text.Blank — blank characters and blank lines

Two classes of blanks occur: the characters that a setting is trimmed of (`isBlank`, every character
with the property White_Space) and the octets that a line of a buffer file may hold and still count
as empty (`isBlankOctet`, the ASCII blanks without the vertical tab).
-/

namespace AuditRelay.Text

/-- The characters with the property White_Space. -/
def isBlank (c : Char) : Bool :=
  let n := c.toNat
  (9 ≤ n && n ≤ 13) || n == 0x20 || n == 0x85 || n == 0xA0 || n == 0x1680 ||
    (0x2000 ≤ n && n ≤ 0x200A) || n == 0x2028 || n == 0x2029 || n == 0x202F || n == 0x205F ||
    n == 0x3000

/-- The text without the blanks at its two ends. -/
def trim (s : String) : String :=
  String.ofList (((s.toList.dropWhile isBlank).reverse.dropWhile isBlank).reverse)

/-- A text of blanks alone counts as unset. -/
def isUnset (s : String) : Bool :=
  s.toList.all isBlank

/-- The octets of a line that holds no record: tab, line feed, form feed, carriage return, space. -/
def isBlankOctet (b : UInt8) : Bool :=
  b == 9 || b == 10 || b == 12 || b == 13 || b == 32

end AuditRelay.Text
