import AuditRelay.Json.Embedded

/-!
# AuditRelay.Event.Basic — audit events

An event is an identifier and named fields of any JSON values. Its JSON form is one flat object with
the identifier under `id`, so no field has that name: `withField` ignores it and `ofJson` takes it
for the identifier.
-/

namespace AuditRelay

/-- A record of something that happened. It is passed on unchanged. -/
structure Event where
  id : String
  fields : Members
  deriving DecidableEq, Repr, Inhabited

namespace Event

/-- The member name of the identifier. -/
def idKey : String := "id"

/-- What a reader of events calls the shape it asks for. -/
def shape : String := "struct AuditEvent"

/-- The event without fields. -/
def new (id : String) : Event := ⟨id, []⟩

/-- Puts a field, in place of an earlier one of that name. -/
def withField (e : Event) (key : String) (value : Json) : Event :=
  if key = idKey then e else { e with fields := Named.insert key value e.fields }

/-- The field of that name. -/
def field? (e : Event) (key : String) : Option Json :=
  Named.get? e.fields key

/-- The event as one object, all names in order. -/
def toJson (e : Event) : Json :=
  .object (Named.insert idKey (.string e.id) e.fields)

/-- The event of an object whose `id` is a string. The fields are resolved as trees. -/
def ofJson : Json → Except JsonFault Event
  | .object ms =>
    match Named.get? ms idKey with
    | none => .error (.misshapen (.missingField idKey))
    | some (.string id) => (Json.resolveMembers [] (Named.erase idKey ms)).map (⟨id, ·⟩)
    | some v => .error (.misshapen (.wrongType v.seen "a string"))
  | v => .error (.misshapen (.wrongType v.seen shape))

end Event

end AuditRelay
