import AuditRelay.Scenario.World

/-!
# AuditRelay.Scenario.RelayRun — a script for a relay

Time stands still while anything can go on (`settle`), and moves from one deadline to the next while
the script sleeps (`sleepUntil`); a jump moves it at once. The relay is the only one that acts in
between: producers hand their events in together, at the beginning of a step, and those that wait
take the places that they are given whenever the relay rests. It rests when it has to wait, and
after a number of turns in a row (`allowance`) even if it could go on.

Calls can be slow. Such a call first lets its time pass and then acts, so a relay that is stopped in
the meantime has not made it.
-/

namespace AuditRelay.Scenario

/-- A relay, its producers and its surroundings. -/
structure RelayRun where
  world : World
  /-- The relay, unless it could not start. -/
  relay : Option Relay
  intake : Intake
  /-- Whether the relay has been told to stop. -/
  cancelled : Bool
  delays : PerCall
  /-- When the slow call in progress acts. -/
  wakeAt : Option Nat
  /-- How many turns the relay may still take before it rests. -/
  turns : Nat
  /-- The number of the next submission. -/
  ticket : Nat
  /-- The submissions that have come to an end, last first. -/
  finished : List (Message × Except Fault Unit)
  /-- Whether the script still has its own producer. -/
  hasSender : Bool
  /-- Whether the script still holds the relay. -/
  hasHandle : Bool

namespace RelayRun

def now (run : RelayRun) : Nat := run.world.wire.now

/-- What the relay has counted. -/
def counters (run : RelayRun) : RelayCounters :=
  match run.relay with
  | some r => r.courier.counters
  | none => .zero

/-- Whether the relay has stopped. -/
def isFinished (run : RelayRun) : Bool :=
  match run.relay with
  | some r => match r.courier.phase with
    | .stopped => true
    | _ => false
  | none => true

/-- What the registry reports. -/
def samples (run : RelayRun) : List Sample :=
  let bench := run.world.stores.bench
  match bench.store? with
  | some s => bench.registry.gather (s.counters.samples ++ run.counters.samples)
  | none => []

/-! ## Producers -/

/-- Submissions come to an end. -/
def finish (run : RelayRun) (ms : List Message) (r : Except Fault Unit) : RelayRun :=
  { run with finished := ms.reverse.map (·, r) ++ run.finished }

/-- Hands an event in. -/
def submit (run : RelayRun) (e : Event) : RelayRun :=
  let m : Message := ⟨run.ticket, e⟩
  let run := { run with ticket := run.ticket + 1 }
  if run.intake.closed then run.finish [m] (.error .closed)
  else
    let accepted := run.intake.hasRoom
    let run := { run with intake := run.intake.submit m }
    if accepted then run.finish [m] (.ok ()) else run

/-- The producers that have been given a place fill it. -/
def fill (run : RelayRun) : RelayRun :=
  { run with intake := run.intake.fill }.finish run.intake.granted (.ok ())

/-- The relay has stopped, and nobody can hand in any more. -/
def closeIntake (run : RelayRun) : RelayRun :=
  let run := run.fill
  { run with intake := run.intake.close }.finish run.intake.waiting (.error .closed)

/-! ## Going on -/

/-- How many turns the relay takes in a row. -/
def allowance : Nat := 128

/-- The relay rests, so the producers have their turn. -/
def rest (run : RelayRun) : RelayRun := { run.fill with turns := allowance }

/-- The relay takes a turn, after a rest if none is left. -/
def takeTurn (run : RelayRun) : RelayRun :=
  let run := if run.turns = 0 then run.rest else run
  { run with turns := run.turns - 1 }

/-- The call that a phase is about to make. -/
def callOf : Phase → Option WatchedCall
  | .delivering _ (.publishing _) | .replaying _ _ _ _ (.publishing _) => some .publish
  | .buffering _ _ => some .write
  | .reading _ => some .read
  | .committing _ _ => some .commit
  | .refreshing => some .refresh
  | _ => none

/-- How long the coming call takes. -/
def delayOf (run : RelayRun) (call : Option WatchedCall) : Nat :=
  match call with
  | some .publish => run.delays .publish
  | some call => if run.world.watched then run.delays call else 0
  | none => 0

/-- What the coming call costs: a call that has been slow a turn, and a call that reaches the store
another one. A relay that waits for the device rests and has taken one turn afterwards. -/
def pay (run : RelayRun) (call : Option WatchedCall) : RelayRun :=
  let run := if run.wakeAt.isSome then run.takeTurn else run
  match call with
  | some .publish | none => run
  | some call =>
    if run.world.isFaulty call then run
    else if run.world.isOnDevice then run.rest.takeTurn
    else run.takeTurn

/-- The relay makes its coming call. -/
def act (run : RelayRun) (r : Relay) : RelayRun :=
  let run := run.pay (callOf r.courier.phase)
  let (courier, intake, world) := r.courier.step World.surroundings run.intake run.world
  { run with relay := some { r with courier }, intake, world, wakeAt := none }

/-- A free relay takes something up, which is a turn. It rests before it begins if that was the last
one. -/
def takeUp (run : RelayRun) (r : Relay) (intake : Intake) : RelayRun :=
  let run := { run with relay := some r, intake }.takeTurn
  if run.turns = 0 then run.rest else run

/-- The relay waits: producers fill their places, if there are any. -/
def yield (run : RelayRun) : Option RelayRun :=
  if run.intake.granted.isEmpty then none else some run.rest

/-- The next thing that goes on without time passing. -/
def next (run : RelayRun) : Option RelayRun :=
  match run.relay with
  | none => if run.intake.closed then none else some run.closeIntake
  | some r =>
    match r.courier.phase with
    | .stopped => if run.intake.closed then none else some run.closeIntake
    | phase =>
      if run.cancelled then
        let (courier, world) := r.courier.stop World.surroundings run.world
        some { run with relay := some { r with courier }, world, wakeAt := none }
      else
        match phase, run.wakeAt with
        | .idle, _ =>
          if run.turns = 0 then some run.rest
          else
            match r.select run.intake run.now with
            | some (r, intake) => some (run.takeUp r intake)
            | none => run.yield
        | _, some t => if t ≤ run.now then some (run.act r) else run.yield
        | phase, none =>
          match run.delayOf (callOf phase) with
          | 0 => some (run.act r)
          | d => some { run with wakeAt := some (run.now + d) }

/-- How many things may go on at one time; no script comes near. -/
def patience : Nat := 1000000

/-- Lets everything go on that can, after a rest. -/
def settle (run : RelayRun) : RelayRun :=
  go { run with turns := allowance } patience
where
  go (run : RelayRun) : Nat → RelayRun
    | 0 => run
    | n + 1 =>
      match run.next with
      | none => run
      | some run => go run n

/-! ## Time -/

def withNow (run : RelayRun) (now : Nat) : RelayRun :=
  { run with world := { run.world with wire := { run.world.wire with now } } }

/-- The deadlines that lie ahead. -/
def deadlines (run : RelayRun) : List Nat :=
  let ds := match run.relay with
    | some r => if run.isFinished then [] else [r.drain.deadline, r.metrics.deadline]
    | none => []
  (ds ++ run.wakeAt.toList).filter (run.now < ·)

/-- Moves from deadline to deadline up to a time; every move brings the time nearer. -/
def sleepUntil (run : RelayRun) (target : Nat) : RelayRun :=
  go run (target - run.now)
where
  go (run : RelayRun) : Nat → RelayRun
    | 0 => run.settle
    | n + 1 =>
      if target ≤ run.now then run.settle
      else go (run.withNow (run.deadlines.foldl min target)).settle n

/-! ## The script -/

/-- A step of a script. -/
inductive RelayStep where
  | send (events : List Event)
  | sleep (ms : Nat)
  | jump (ms : Nat)
  | available (on : Bool)
  | closeConnections
  | quota (n : Option Nat)
  | delay (call : WatchedCall) (ms : Nat)
  | fail (call : WatchedCall) (n : Nat)
  | dropSender
  | isClosed
  /-- Tells the relay to stop. -/
  | cancel
  /-- Gives the relay up, which tells it to stop. -/
  | release
  /-- Stops the relay and closes its store. -/
  | shutdown
  | registry
  | onStore (step : StoreRunStep)
  /-- Hands an event in if that is possible at once. -/
  | record (e : Event)

/-- What a step shows. -/
inductive RelayResult where
  | done (r : Except Fault Unit)
  | noSender
  | noHandle
  | gaveUp
  | closed (b : Option Bool)
  | samples (xs : List Sample)
  | store (r : StoreRunResult)

def withWire (run : RelayRun) (wire : Wire) : RelayRun :=
  { run with world := { run.world with wire } }

def withBroker (run : RelayRun) (broker : LocalBroker) : RelayRun :=
  run.withWire { run.world.wire with broker }

def withStores (run : RelayRun) (stores : StoreRun) : RelayRun :=
  { run with world := { run.world with stores } }

/-- One producer less. -/
def dropProducer (run : RelayRun) : RelayRun :=
  { run with intake := { run.intake with producers := run.intake.producers - 1 } }

/-- Performs a step; what it makes possible goes on afterwards. -/
def perform (run : RelayRun) : RelayStep → RelayResult × RelayRun
  | .send events =>
    if run.hasSender then (.done (.ok ()), events.foldl submit run) else (.noSender, run)
  | .sleep ms => (.done (.ok ()), run.sleepUntil (run.now + ms))
  | .jump ms => (.done (.ok ()), run.withNow (run.now + ms))
  | .available on =>
    (.done (.ok ()), run.withBroker { run.world.wire.broker with available := on })
  | .closeConnections => (.done (.ok ()), run.withBroker run.world.wire.broker.closeConnections)
  | .quota n => (.done (.ok ()), run.withWire { run.world.wire with quota := n })
  | .delay call ms => (.done (.ok ()), { run with delays := run.delays.set call ms })
  | .fail call n =>
    (.done (.ok ()), { run with world := { run.world with faults := run.world.faults.set call n } })
  | .dropSender =>
    (.done (.ok ()), if run.hasSender then { run with hasSender := false }.dropProducer else run)
  | .isClosed => (.closed (if run.hasSender then some run.intake.closed else none), run)
  | .cancel => (.done (.ok ()), { run with cancelled := true })
  | .release => (.done (.ok ()), { run with cancelled := true, hasHandle := false })
  | .shutdown =>
    if run.hasHandle then
      let run := { run with cancelled := true, hasHandle := false }.dropProducer.settle
      let stores := run.world.stores
      (.done (.ok ()), run.withStores { stores with bench := stores.bench.close })
    else (.noHandle, run)
  | .registry => (.samples run.samples, run)
  | .onStore s =>
    let (r, stores) := run.world.stores.step s
    (.store r, run.withStores stores)
  | .record e =>
    if !run.hasHandle then (.noHandle, run)
    else if run.intake.closed then (.done (.error .closed), run)
    else if run.intake.hasRoom then
      (.done (.ok ()), { run with
        ticket := run.ticket + 1
        intake := run.intake.submit ⟨run.ticket, e⟩ })
    else (.gaveUp, run)

/-- Performs a step and lets everything go on, between two looks at the directory. -/
def step (run : RelayRun) (s : RelayStep) : RelayResult × RelayRun :=
  let run := { run with finished := [] }.withStores run.world.stores.look
  let (r, run) := run.perform s
  let run := run.settle
  (r, run.withStores run.world.stores.look)

/-- The submissions that have come to an end during the last step, in their order. -/
def ended (run : RelayRun) : List (Message × Except Fault Unit) :=
  run.finished.mergeSort fun a b => a.1.ticket ≤ b.1.ticket

/-- What a last reading of the store would return. -/
def leftOver (run : RelayRun) : Except Fault (Option Batch) × RelayRun :=
  let (r, bench) := run.world.stores.bench.nextBatch
  (r, { run with world := run.world.withBench bench })

/-! ## Starting -/

/-- Starts a relay over an open store and lets it come to rest. -/
def start (wire : Wire) (stores : StoreRun) (watched : Bool) (settings : RelaySettings)
    (counters : RelayCounters) (producers : Nat) : Except Fault RelayRun := do
  let intake ← Intake.create settings.capacity producers
  return settle ⟨⟨wire, stores.look, watched, fun _ => 0⟩,
    Relay.start? settings counters wire.now, intake, false, fun _ => 0, none, allowance, 0, [],
    true, true⟩

/-- Opens a store, registers the metrics of a loop and starts a relay of the script's own. -/
def startTrail (wire : Wire) (params : Except Fault StoreParameters) (settings : RelaySettings) :
    Except Fault RelayRun := do
  let (opened, stores) := StoreRun.start.create params
  opened
  let (counters, registry) := RelayCounters.register stores.bench.registry
  let counters ← counters
  start wire { stores with bench := { stores.bench with registry } } true settings counters 1

/-- Starts a relay from its settings. The script has a producer beside that of the service. -/
def startService (wire : Wire) (own : Assembly) (settings : Settings) (registry : Registry) :
    Except Fault RelayRun :=
  match Service.start own settings registry StoreRun.start.bench.site with
  | (.error f, _, _) => .error f
  | (.ok service, registry, site) =>
    start wire ⟨⟨[service.store], [], registry, site⟩, []⟩ false settings.relay service.counters 2

end RelayRun

end AuditRelay.Scenario
