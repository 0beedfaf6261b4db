import AuditRelay.Broker.Link
import AuditRelay.Metrics.Counters
import AuditRelay.Relay.Intake
import AuditRelay.Store.Batch

/-!
# AuditRelay.Relay.Courier — what the relay does with events

An event is published; where that fails it is written to the store; where the store is full it is
parked, and nothing more is received until a pass over the store has made room.

A pass moves what is waiting at the intake into the store, reads a batch, publishes its events one
by one and commits it, until nothing is left or something fails. A batch is committed only when all
its events have been published. A pass that has committed something ends the pause: the parked
event is then treated like a received one.

The courier goes from phase to phase, each with one call at most on the broker, the store or the
intake. Whatever stops it stops it between two phases. `Surroundings` answers the calls, and nothing
is assumed of the answers.
-/

namespace AuditRelay

/-- What the courier can ask of a store in state `σ`. -/
structure Buffer (σ : Type) where
  write : Event → σ → Except Fault Unit × σ
  read : σ → Except Fault (Option Batch) × σ
  commit : Batch → σ → Except Fault Unit × σ
  refresh : σ → Except Fault Unit × σ

/-- A broker and a store. -/
structure Surroundings (σ : Type) extends Connector σ, Buffer σ

/-- What the courier is at. A pass is told by the number of batches that it has committed. -/
inductive Phase where
  | idle
  /-- A received event is on its way to the broker. -/
  | delivering (e : Event) (d : Delivery)
  /-- An event is to be written to the store, perhaps during a pass. -/
  | buffering (e : Event) (pass : Option Nat)
  /-- A pass looks for events at the intake. -/
  | collecting (pass : Nat)
  | reading (pass : Nat)
  /-- An event of a batch is on its way to the broker; others of the batch follow it. -/
  | replaying (pass : Nat) (b : Batch) (e : Event) (rest : List Event) (d : Delivery)
  | committing (pass : Nat) (b : Batch)
  | refreshing
  | stopped
  deriving DecidableEq, Repr

/-- The relay between its calls. -/
structure Courier where
  phase : Phase
  link : Link
  counters : RelayCounters
  parked : Option Event
  /-- Whether somebody could still hand events in. -/
  intakeOpen : Bool
  deriving DecidableEq, Repr

namespace Courier

variable {σ : Type}

/-- A courier that has done nothing yet. -/
def create (maxAge : Nat) (counters : RelayCounters) : Courier :=
  ⟨.idle, ⟨maxAge, none⟩, counters, none, true⟩

/-- Whether events are received. -/
def isReceiving (c : Courier) : Bool :=
  c.intakeOpen && c.parked.isNone

/-! ## What a free courier begins -/

/-- Begins a pass over the store. -/
def beginPass (c : Courier) : Courier := { c with phase := .collecting 0 }

/-- Begins to refresh the metrics of the store. -/
def beginRefresh (c : Courier) : Courier := { c with phase := .refreshing }

/-- Begins with a received event. -/
def receive (c : Courier) (e : Event) : Courier := { c with phase := .delivering e .checking }

/-- Learns that nobody will hand in more. -/
def stopReceiving (c : Courier) : Courier := { c with intakeOpen := false }

/-! ## One phase after the other -/

/-- Ends a pass. If it has committed anything the pause is over. -/
def endPass (c : Courier) : (committed : Nat) → Courier
  | 0 => { c with phase := .idle }
  | _ + 1 =>
    let c := { c with counters := { c.counters with backpressure := false } }
    match c.parked with
    | none => { c with phase := .idle }
    | some e => { c with parked := none }.receive e

/-- Goes on after an event has been dealt with. -/
def resume (c : Courier) : (pass : Option Nat) → Courier
  | none => { c with phase := .idle }
  | some pass => { c with phase := .collecting pass }

/-- A received event has been published or not. -/
def delivered (c : Courier) (e : Event) : (failure : Option Fault) → Courier
  | none =>
    { c with
      phase := .idle
      counters := { c.counters with published := c.counters.published + 1 } }
  | some _ =>
    { c with
      phase := .buffering e none
      counters := { c.counters with publishFailures := c.counters.publishFailures + 1 } }

/-- An event has been written or not. -/
def buffered (c : Courier) (e : Event) (pass : Option Nat) : Except Fault Unit → Courier
  | .ok () =>
    { c with counters := { c.counters with buffered := c.counters.buffered + 1 } }.resume pass
  | .error f =>
    if f.isStoreFull then
      { c with
        parked := some e
        counters := { c.counters with backpressure := true } }.resume pass
    else { c with counters := { c.counters with dropped := c.counters.dropped + 1 } }.resume pass

/-- Turns to the events of a batch that are left. -/
def replay (c : Courier) (pass : Nat) (b : Batch) : List Event → Courier
  | [] => { c with phase := .committing pass b }
  | e :: rest => { c with phase := .replaying pass b e rest .checking }

/-- A batch has been read or not. -/
def gotBatch (c : Courier) (pass : Nat) : Except Fault (Option Batch) → Courier
  | .ok (some b) => c.replay pass b b.events
  | .ok none | .error _ => c.endPass pass

/-- An event of a batch has been published or not. -/
def replayed (c : Courier) (pass : Nat) (b : Batch) (rest : List Event) :
    (failure : Option Fault) → Courier
  | none => c.replay pass b rest
  | some _ =>
    { c with
      counters := { c.counters with publishFailures := c.counters.publishFailures + 1 } }.endPass pass

/-- A batch has been committed or not. -/
def committed (c : Courier) (pass : Nat) (b : Batch) : Except Fault Unit → Courier
  | .ok () =>
    { c with
      phase := .collecting (pass + 1)
      counters := { c.counters with drained := c.counters.drained + b.events.length } }
  | .error _ => c.endPass pass

/-- Makes the call of the present phase and goes on to the next one. -/
def step (S : Surroundings σ) (c : Courier) (i : Intake) (s : σ) : Courier × Intake × σ :=
  match c.phase with
  | .idle | .stopped => (c, i, s)
  | .delivering e (.done failure) => (c.delivered e failure, i, s)
  | .delivering e d =>
    let (d, link, s) := c.link.step S.toConnector e s d
    ({ c with link, phase := .delivering e d }, i, s)
  | .buffering e pass =>
    let (r, s) := S.write e s
    (c.buffered e pass r, i, s)
  | .collecting pass =>
    if c.isReceiving then
      match i.take with
      | some (m, i) => ({ c with phase := .buffering m.event (some pass) }, i, s)
      | none =>
        let c := if i.isExhausted then c.stopReceiving else c
        ({ c with phase := .reading pass }, i, s)
    else ({ c with phase := .reading pass }, i, s)
  | .reading pass =>
    let (r, s) := S.read s
    (c.gotBatch pass r, i, s)
  | .replaying pass b _ rest (.done failure) => (c.replayed pass b rest failure, i, s)
  | .replaying pass b e rest d =>
    let (d, link, s) := c.link.step S.toConnector e s d
    ({ c with link, phase := .replaying pass b e rest d }, i, s)
  | .committing pass b =>
    let (r, s) := S.commit b s
    (c.committed pass b r, i, s)
  | .refreshing => ({ c with phase := .idle }, i, (S.refresh s).2)

/-- Stops: what is being done is abandoned, and the connection is given up. -/
def stop (S : Surroundings σ) (c : Courier) (s : σ) : Courier × σ :=
  let (link, s) := c.link.disconnect S.toConnector s
  ({ c with link, phase := .stopped, parked := none }, s)

end Courier

end AuditRelay
