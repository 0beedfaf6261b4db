import AuditRelay.Relay.Service
import AuditRelay.Scenario.StoreRun
import AuditRelay.Scenario.Wire

/-!
# AuditRelay.Scenario.World — the surroundings of a relay under test

A relay under test works over a watched line and, unless the script wants the store alone, over a
watched store: its calls are noted with their results, and the next calls of a kind can be made to
fail before they reach the store.
-/

namespace AuditRelay.Scenario

/-- The calls of a relay that a script can disturb. -/
inductive WatchedCall where
  | publish
  | write
  | read
  | commit
  | refresh
  deriving DecidableEq, Repr

/-- A number for each kind of call. -/
abbrev PerCall := WatchedCall → Nat

/-- The numbers with another one for a kind of call. -/
def PerCall.set (xs : PerCall) (call : WatchedCall) (n : Nat) : PerCall :=
  fun c => if c = call then n else xs c

/-- A line to a broker and a store. -/
structure World where
  wire : Wire
  stores : StoreRun
  /-- Whether the calls on the store are watched. -/
  watched : Bool
  /-- How many of the next calls fail. -/
  faults : PerCall

namespace World

def withBench (w : World) (bench : Bench) : World :=
  { w with stores := { w.stores with bench } }

def note (w : World) (text : String) : World := { w with wire := w.wire.note text }

/-- Whether the next call of a kind is made to fail. -/
def isFaulty (w : World) (call : WatchedCall) : Bool := w.watched && 0 < w.faults call

/-- Whether the calls on the store make the relay wait for the device. -/
def isOnDevice (w : World) : Bool :=
  match w.stores.bench.store? with
  | some (.spool _ _) => true
  | _ => false

/-- Makes a call on the store, unless it is made to fail. -/
def callStore {α : Type} (w : World) (call : WatchedCall) (text : Except Fault α → String)
    (act : Bench → Except Fault α × Bench) : Except Fault α × World :=
  if w.isFaulty call then
    let r : Except Fault α := .error (.io (.other "injected") (.other "injected"))
    (r, { w with faults := PerCall.set w.faults call (w.faults call - 1) }.note (text r))
  else
    let (r, bench) := act w.stores.bench
    let w := w.withBench bench
    (r, if w.watched then w.note (text r) else w)

/-- How the result of a write is noted. -/
def markWrite (e : Event) (r : Except Fault Unit) : String :=
  "write " ++ e.id ++ " " ++ match r with
    | .ok () => "ok"
    | .error f => if f.isStoreFull then "full" else "err"

/-- How the result of a read is noted. -/
def markRead : Except Fault (Option Batch) → String
  | .ok (some b) => "read " ++ toString b.events.length
  | .ok none => "read none"
  | .error _ => "read err"

/-- The world as a relay sees it. -/
def surroundings : Surroundings World where
  connect w :=
    let (r, wire) := w.wire.connect
    (r, { w with wire })
  isClosed c w := w.wire.broker.isClosed c
  age c w := w.wire.broker.age c w.wire.now
  publish c e w :=
    let (r, wire) := w.wire.publishNow c e
    (r, { w with wire })
  disconnect c w := { w with wire := w.wire.disconnect c }
  write e w := w.callStore .write (markWrite e) (·.write e)
  read w := w.callStore .read markRead Bench.nextBatch
  commit b w := w.callStore .commit (fun r => "commit " ++ Wire.mark r) (·.commit b.token)
  refresh w := w.callStore .refresh (fun r => "metrics " ++ Wire.mark r) Bench.refreshGauges

end World

end AuditRelay.Scenario
