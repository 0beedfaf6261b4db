import AuditRelay.Event.Basic
import AuditRelay.Json.Printer

/-!
# AuditRelay.Event.Text — events as lines

An event is written as one object, the identifier first. `Event.read` takes the object apart while
it reads it: an `id` that comes twice is refused, at its second name, and the fields are kept as
trees until the object has ended. Only then are they resolved, so every other fault of the object
comes before those of an embedded text. Going through a JSON value (`Event.readByValue`) settles all
repeated names alike, the last value winning, and resolves embedded texts where they stand.
-/

namespace AuditRelay.Event

/-- The event as text: the identifier, then the fields in order. -/
def written (e : Event) : Octets :=
  '\x7b'.toUInt8 ::
    (Json.writtenMembers ((idKey, .string e.id) :: e.fields) ++ ['\x7d'.toUInt8])

/-- What has been read of an event: the identifier, and the fields as trees, last first. -/
structure Draft where
  id : Option String
  fields : List (String × Json)

/-- Reads a member from behind its name. -/
def readMember (depth : Nat) (draft : Draft) (key : String) (bs : Octets) : Scan.Reading Draft :=
  if key = idKey then
    if draft.id.isSome then .error (.misshapen (.duplicateField idKey))
    else
      match Scan.colon bs with
      | .error f => .error f
      | .ok bs =>
        Scan.mapResult (fun s => { draft with id := some s }) (Scan.stringValue "a string" bs)
  else
    Scan.mapResult (fun ms => { draft with fields := ms })
      (Scan.pushMember (Scan.tree depth) draft.fields key bs)

/-- The draft as an event, once its members are read. -/
def Draft.finish (draft : Draft) : Except JsonFault Event :=
  match draft.id with
  | some id => (Json.resolveMembers [] draft.fields.reverse).map (⟨id, ·⟩)
  | none => .error (.misshapen (.missingField idKey))

/-- Reads an event without building the object first. -/
def reading (bs : Octets) : Scan.Reading Event :=
  match Scan.skipBlanks bs with
  | [] => Scan.fail .endInValue
  | b :: r =>
    if b = Scan.octet '\x7b' then
      match Scan.members (readMember (Json.maxDepth - 1)) true ⟨none, []⟩ r (r.length + 1) with
      | .error f => .error f
      | .ok (draft, rest) => draft.finish.map (·, rest)
    else Scan.refuse shape (b :: r)

/-- The event that a text holds, read directly. -/
def read (bs : Octets) : Except JsonFault Event :=
  Scan.complete (reading bs)

/-- The event that a text holds, by way of a JSON value. -/
def readByValue (bs : Octets) : Except JsonFault Event :=
  match Json.ofOctets bs with
  | .error f => .error f
  | .ok v => ofJson v

/-- Why a record is refused, as a dead letter says it. -/
def refusal (f : JsonFault) : String :=
  "failed to unmarshal event: " ++ f.message

end AuditRelay.Event
