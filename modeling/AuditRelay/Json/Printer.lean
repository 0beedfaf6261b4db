import AuditRelay.Json.Basic
import AuditRelay.Decimal.Shortest
import AuditRelay.Text.Quoted
import AuditRelay.Text.Utf8

/-!
# AuditRelay.Json.Printer — values as JSON texts

A value is written without blanks, as octets: one line, whatever its strings hold, because every
control character is escaped.
-/

namespace AuditRelay

namespace Json

/-- One character of a string as it is written. -/
def escaped (c : Char) : Octets :=
  if c = '"' then Text.octets "\\\""
  else if c = '\\' then Text.octets "\\\\"
  else if c = '\x08' then Text.octets "\\b"
  else if c = '\x0c' then Text.octets "\\f"
  else if c = '\n' then Text.octets "\\n"
  else if c = '\r' then Text.octets "\\r"
  else if c = '\t' then Text.octets "\\t"
  else if c.toNat < 0x20 then
    Text.octets "\\u00" ++
      [(Text.hexDigit (c.toNat / 16)).toUInt8, (Text.hexDigit (c.toNat % 16)).toUInt8]
  else String.utf8EncodeChar c

/-- A string in quotes. -/
def writtenString (s : String) : Octets :=
  '"'.toUInt8 :: (s.toList.flatMap escaped ++ ['"'.toUInt8])

def writtenNumber : Number → Octets
  | .int n => Text.octets (toString n)
  | .real d => Text.octets d.text

mutual

/-- The text of a value. -/
def written : Json → Octets
  | .null => Text.octets "null"
  | .bool true => Text.octets "true"
  | .bool false => Text.octets "false"
  | .number n => writtenNumber n
  | .string s => writtenString s
  | .array items => '['.toUInt8 :: (writtenItems items ++ [']'.toUInt8])
  | .object members => '\x7b'.toUInt8 :: (writtenMembers members ++ ['\x7d'.toUInt8])

/-- Elements with commas between them. -/
def writtenItems : List Json → Octets
  | [] => []
  | [v] => v.written
  | v :: w :: vs => v.written ++ ','.toUInt8 :: writtenItems (w :: vs)

/-- Members with commas between them. -/
def writtenMembers : List (String × Json) → Octets
  | [] => []
  | [(k, v)] => writtenString k ++ ':'.toUInt8 :: v.written
  | (k, v) :: m :: ms =>
    writtenString k ++ ':'.toUInt8 :: (v.written ++ ','.toUInt8 :: writtenMembers (m :: ms))

end

/-- The text of a value, as text. -/
def text (v : Json) : String :=
  (Text.ofOctets? v.written).getD ""

end Json

end AuditRelay
