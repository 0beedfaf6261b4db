import AuditRelay.Event.Basic
import AuditRelay.Fault

/-!
# AuditRelay.Broker.Local — a broker in memory

The broker records every event that was published and passes it on to its subscribers. It can be
made unavailable, and all its connections can be closed at once: a connection is open as long as it
has not been closed itself and the generation in which it was established lasts.

A subscriber has a position in the record. Only the last events are kept for subscribers; one that
has fallen behind is told once how many it has missed, and goes on with the oldest that is kept.
-/

namespace AuditRelay

/-- A connection to the broker. -/
structure Connection where
  queue : String
  generation : Nat
  /-- When it was established. -/
  since : Nat
  closed : Bool
  deriving DecidableEq, Repr

/-- A broker in memory. -/
structure LocalBroker where
  /-- How many events are kept for subscribers. -/
  kept : Nat
  available : Bool
  generation : Nat
  /-- The connections that were ever established, first to last. -/
  connections : List Connection
  /-- The published events, first to last. -/
  published : List Event
  deriving DecidableEq, Repr

/-- The position of a subscriber: the number of events before its next one. -/
abbrev Subscription := Nat

namespace LocalBroker

/-- The most events that memory could hold. -/
def maxKept : Nat := Nat.pow 2 56

/-- A broker that keeps at least `capacity` events, which must be some and must fit into memory. -/
def create? (capacity : Nat) : Option LocalBroker :=
  if capacity = 0 || maxKept < capacity then none
  else some ⟨capacity.nextPowerOfTwo, true, 0, [], []⟩

/-- How many connections were established. -/
def connectionCount (b : LocalBroker) : Nat := b.connections.length

/-- Closes all connections. -/
def closeConnections (b : LocalBroker) : LocalBroker := { b with generation := b.generation + 1 }

/-! ## Connections -/

/-- Establishes a connection. -/
def connect (b : LocalBroker) (queue : String) (now : Nat) : Except Fault Nat × LocalBroker :=
  if b.available then
    (.ok b.connections.length,
      { b with connections := b.connections ++ [⟨queue, b.generation, now, false⟩] })
  else (.error (.broker .refused), b)

/-- Whether a connection is closed. -/
def isClosed (b : LocalBroker) (c : Nat) : Bool :=
  match b.connections[c]? with
  | some connection => connection.closed || connection.generation != b.generation
  | none => true

/-- For how long a connection has been established. -/
def age (b : LocalBroker) (c : Nat) (now : Nat) : Nat :=
  match b.connections[c]? with
  | some connection => now - connection.since
  | none => 0

/-- Closes a connection. -/
def disconnect (b : LocalBroker) (c : Nat) : LocalBroker :=
  { b with
    connections := b.connections.modify c fun connection => { connection with closed := true } }

/-- Publishes an event. A connection that finds the broker unavailable is closed by it. -/
def publish (b : LocalBroker) (c : Nat) (e : Event) : Except Fault Unit × LocalBroker :=
  match b.connections[c]? with
  | none => (.error (.broker .connectionClosed), b)
  | some connection =>
    if b.isClosed c then (.error (.broker .connectionClosed), b)
    else if !b.available then (.error (.broker (.publishRefused connection.queue)), b.disconnect c)
    else (.ok (), { b with published := b.published ++ [e] })

/-! ## Subscribers -/

/-- Subscribes to the events from now on. -/
def subscribe (b : LocalBroker) : Subscription := b.published.length

/-- The next event of a subscriber, if there is one, or how many it has missed. -/
def receive (b : LocalBroker) (s : Subscription) : Option (Except Fault Event) × Subscription :=
  let oldest := b.published.length - b.kept
  if s < oldest then (some (.error (.broker (.lagged (oldest - s)))), oldest)
  else
    match b.published[s]? with
    | some e => (some (.ok e), s + 1)
    | none => (none, s)

end LocalBroker

end AuditRelay
