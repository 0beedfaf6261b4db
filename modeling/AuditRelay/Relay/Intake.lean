import AuditRelay.Event.Basic
import AuditRelay.Fault

/-!
# AuditRelay.Relay.Intake — the bounded way in

Producers hand their events to the relay through a queue of limited capacity. A producer that finds
no room waits, first come, first served. When the relay takes an event out, the place that becomes
free is given to the first waiting producer at once, but the producer fills it only when it has its
turn: until then the place is neither free nor is there an event in it.
-/

namespace AuditRelay

/-- An event that has been handed in, with the number of its submission. -/
structure Message where
  ticket : Nat
  event : Event
  deriving DecidableEq, Repr

/-- The way into the relay. -/
structure Intake where
  capacity : Nat
  /-- The events that can be taken out. -/
  queue : List Message
  /-- The events of producers that have been given a place and have not filled it yet. -/
  granted : List Message
  /-- The events of producers that wait for a place. -/
  waiting : List Message
  /-- How many producers could still hand in more. -/
  producers : Nat
  /-- Whether the relay has stopped. -/
  closed : Bool
  deriving DecidableEq, Repr

namespace Intake

/-- The most places that an intake can have. -/
def maxCapacity : Nat := Nat.pow 2 61 - 1

/-- An empty intake with room for at least one event. -/
def create (capacity producers : Nat) : Except Fault Intake :=
  if maxCapacity < capacity then .error (.capacityTooLarge capacity)
  else .ok ⟨max capacity 1, [], [], [], producers, false⟩

/-- Whether a place is free. -/
def hasRoom (i : Intake) : Bool :=
  i.queue.length + i.granted.length < i.capacity

/-- Hands an event in, or lets its producer wait. -/
def submit (i : Intake) (m : Message) : Intake :=
  if i.hasRoom then { i with queue := i.queue ++ [m] } else { i with waiting := i.waiting ++ [m] }

/-- Takes the first event out and gives its place away. -/
def take (i : Intake) : Option (Message × Intake) :=
  match i.queue with
  | [] => none
  | m :: queue => some (m,
      { i with queue, granted := i.granted ++ i.waiting.take 1, waiting := i.waiting.drop 1 })

/-- The producers that have been given a place fill it. -/
def fill (i : Intake) : Intake :=
  { i with queue := i.queue ++ i.granted, granted := [] }

/-- Whether nothing is left and nobody could hand in more. -/
def isExhausted (i : Intake) : Bool :=
  i.queue.isEmpty && i.granted.isEmpty && i.waiting.isEmpty && i.producers == 0

/-- Turns everybody away. -/
def close (i : Intake) : Intake :=
  { i with queue := [], granted := [], waiting := [], closed := true }

end Intake

end AuditRelay
