import AuditRelay.Named
import AuditRelay.Scenario.Wire

/-!
# AuditRelay.Scenario.BrokerRun — a script for a broker and a link

The link works over a watched line; connections and subscriptions of the script's own go to the
broker directly.
-/

namespace AuditRelay.Scenario

/-- A step of a script. -/
inductive BrokerStep where
  | publish (e : Event)
  | disconnect
  | queue
  | available (on : Bool)
  | isAvailable
  | closeConnections
  | quota (n : Option Nat)
  | delay (ms : Nat)
  | advance (ms : Nat)
  | connect (slot : String)
  | connectionPublish (slot : String) (e : Event)
  | connectionDisconnect (slot : String)
  | connectionClosed (slot : String)
  | connectionAge (slot : String)
  | subscribe (slot : String)
  | receive (slot : String)

/-- What a step shows. -/
inductive BrokerResult where
  | done (r : Except Fault Unit)
  | text (s : String)
  | flag (b : Bool)
  | number (n : Nat)
  | received (r : Except Fault Event)
  | pending
  | noConnection
  | noStream

/-- A link, its line, and what the script holds itself. -/
structure BrokerRun where
  wire : Wire
  link : Link
  connections : Named Nat
  streams : Named Subscription

namespace BrokerRun

def start (wire : Wire) (maxAge : Nat) : BrokerRun :=
  ⟨wire, ⟨maxAge, none⟩, [], []⟩

def withBroker (run : BrokerRun) (broker : LocalBroker) : BrokerRun :=
  { run with wire := { run.wire with broker } }

/-- Whether the link holds an open connection. -/
def isConnected (run : BrokerRun) : Bool :=
  run.link.isConnected Wire.connector run.wire

/-- Whether the script has a connection in the slot. -/
def holds (run : BrokerRun) (slot : String) : Bool :=
  (Named.get? run.connections slot).isSome

/-- Does something with a connection of the script, if there is one in the slot. -/
def onConnection (run : BrokerRun) (slot : String)
    (act : Nat → BrokerResult × BrokerRun) : BrokerResult × BrokerRun :=
  match Named.get? run.connections slot with
  | some c => act c
  | none => (.noConnection, run)

/-- Performs a step. -/
def step (run : BrokerRun) : BrokerStep → BrokerResult × BrokerRun
  | .publish e =>
    let (r, link, wire) := run.link.publish Wire.connector e run.wire
    (.done r, { run with link, wire })
  | .disconnect =>
    let (link, wire) := run.link.disconnect Wire.connector run.wire
    (.done (.ok ()), { run with link, wire })
  | .queue => (.text run.wire.queue, run)
  | .available on => (.done (.ok ()), run.withBroker { run.wire.broker with available := on })
  | .isAvailable => (.flag run.wire.broker.available, run)
  | .closeConnections => (.done (.ok ()), run.withBroker run.wire.broker.closeConnections)
  | .quota n => (.done (.ok ()), { run with wire := { run.wire with quota := n } })
  | .delay ms => (.done (.ok ()), { run with wire := { run.wire with delay := ms } })
  | .advance ms => (.done (.ok ()), { run with wire := { run.wire with now := run.wire.now + ms } })
  | .connect slot =>
    match run.wire.broker.connect run.wire.queue run.wire.now with
    | (.error f, _) => (.done (.error f), run)
    | (.ok c, broker) =>
      (.done (.ok ()),
        { run with connections := Named.insert slot c run.connections }.withBroker broker)
  | .connectionPublish slot e =>
    run.onConnection slot fun c =>
      let (r, broker) := run.wire.broker.publish c e
      (.done r, run.withBroker broker)
  | .connectionDisconnect slot =>
    run.onConnection slot fun c =>
      (.done (.ok ()), run.withBroker (run.wire.broker.disconnect c))
  | .connectionClosed slot =>
    run.onConnection slot fun c => (.flag (run.wire.broker.isClosed c), run)
  | .connectionAge slot =>
    run.onConnection slot fun c => (.number (run.wire.broker.age c run.wire.now), run)
  | .subscribe slot =>
    (.done (.ok ()),
      { run with streams := Named.insert slot run.wire.broker.subscribe run.streams })
  | .receive slot =>
    match Named.get? run.streams slot with
    | none => (.noStream, run)
    | some s =>
      match run.wire.broker.receive s with
      | (none, _) => (.pending, run)
      | (some r, s) => (.received r, { run with streams := Named.insert slot s run.streams })

end BrokerRun

end AuditRelay.Scenario
