import AuditRelay.Json.Basic
import AuditRelay.Decimal.Shortest
import AuditRelay.Text.Quoted

/-!
# AuditRelay.Json.Fault — why a JSON text or value is refused

Two families: the text breaks a rule of JSON (`SyntaxFault`), or a well-formed value has not the
shape that is asked for (`ShapeFault`). The wording stands in the `message` functions only.
-/

namespace AuditRelay

/-- How a text breaks the rules of JSON. -/
inductive SyntaxFault where
  | endInList
  | endInObject
  | endInString
  | endInValue
  | expectedColon
  | expectedListCommaOrEnd
  | expectedObjectCommaOrEnd
  | expectedWord
  | expectedValue
  | invalidEscape
  | invalidNumber
  | numberOutOfRange
  | invalidCodePoint
  | controlCharacter
  | keyNotString
  | loneSurrogate
  | trailingComma
  | trailingCharacters
  | endInEscape
  | tooDeep
  deriving DecidableEq, Repr

def SyntaxFault.message : SyntaxFault → String
  | .endInList => "EOF while parsing a list"
  | .endInObject => "EOF while parsing an object"
  | .endInString => "EOF while parsing a string"
  | .endInValue => "EOF while parsing a value"
  | .expectedColon => "expected `:`"
  | .expectedListCommaOrEnd => "expected `,` or `]`"
  | .expectedObjectCommaOrEnd => "expected `,` or `\x7d`"
  | .expectedWord => "expected ident"
  | .expectedValue => "expected value"
  | .invalidEscape => "invalid escape"
  | .invalidNumber => "invalid number"
  | .numberOutOfRange => "number out of range"
  | .invalidCodePoint => "invalid unicode code point"
  | .controlCharacter => "control character (\\u0000-\\u001F) found while parsing a string"
  | .keyNotString => "key must be a string"
  | .loneSurrogate => "lone leading surrogate in hex escape"
  | .trailingComma => "trailing comma"
  | .trailingCharacters => "trailing characters"
  | .endInEscape => "unexpected end of hex escape"
  | .tooDeep => "recursion limit exceeded"

/-- What stands where something else is asked for. -/
inductive Seen where
  | null
  | bool (b : Bool)
  | number (n : Number)
  | string (s : String)
  | array
  | object
  deriving DecidableEq, Repr

def Seen.message : Seen → String
  | .null => "null"
  | .bool b => "boolean `" ++ toString b ++ "`"
  | .number (.int n) => "integer `" ++ toString n ++ "`"
  | .number (.real d) => "floating point `" ++ d.text ++ "`"
  | .string s => "string " ++ Text.quoted s
  | .array => "sequence"
  | .object => "map"

/-- The value as a message shows it. -/
def Json.seen : Json → Seen
  | .null => .null
  | .bool b => .bool b
  | .number n => .number n
  | .string s => .string s
  | .array _ => .array
  | .object _ => .object

/-- How a value misses the shape that is asked for. -/
inductive ShapeFault where
  | wrongType (seen : Seen) (expected : String)
  | wrongValue (seen : Seen) (expected : String)
  | wrongLength (length : Nat) (expected : String)
  | missingField (name : String)
  | duplicateField (name : String)
  deriving DecidableEq, Repr

def ShapeFault.message : ShapeFault → String
  | .wrongType seen expected => "invalid type: " ++ seen.message ++ ", expected " ++ expected
  | .wrongValue seen expected => "invalid value: " ++ seen.message ++ ", expected " ++ expected
  | .wrongLength n expected => "invalid length " ++ toString n ++ ", expected " ++ expected
  | .missingField name => "missing field `" ++ name ++ "`"
  | .duplicateField name => "duplicate field `" ++ name ++ "`"

/-- Why a JSON text or value is refused. -/
inductive JsonFault where
  | malformed (fault : SyntaxFault)
  | misshapen (fault : ShapeFault)
  deriving DecidableEq, Repr

def JsonFault.message : JsonFault → String
  | .malformed f => f.message
  | .misshapen f => f.message

end AuditRelay
