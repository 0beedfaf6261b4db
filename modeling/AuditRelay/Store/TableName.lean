/-!
# AuditRelay.Store.TableName — names that may stand in a statement

The name of a table cannot be bound as a parameter, so it is put into statements only if it is made
of ASCII letters, digits and underscores and does not start with a digit.
-/

namespace AuditRelay

def isNameStart (c : Char) : Bool :=
  c.isAlpha || c == '_'

def isNamePart (c : Char) : Bool :=
  isNameStart c || c.isDigit

/-- Whether a text may be used as the name of a table. -/
def isTableName (s : String) : Bool :=
  match s.toList with
  | [] => false
  | c :: cs => isNameStart c && cs.all isNamePart

end AuditRelay
