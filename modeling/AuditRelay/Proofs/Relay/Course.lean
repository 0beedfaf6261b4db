import AuditRelay.Relay.Basic
import Mathlib.Logic.Relation

/-!
# AuditRelay.Proofs.Relay.Course — every way in which a relay can go on

A relay works between a broker and a store while producers come and go. `Course.Step` is one step of
all of them together, in any order: a call of the courier, a tick, a receipt, a submission, a
producer that fills the place it was given or withdraws, and whatever happens to the broker by
itself. Nothing is said about time, so the steps include every order that the tickers can bring
about (`Relay.select_step`) and every order in which producers fill their places (`reaches_fill`).

Two things are written down on the way that the relay itself does not keep: what the broker has
accepted (`Outside.published`), and what was published of batches that were given up
(`Course.abandoned`).

* `Courier.Turn` says once what a call of the courier can do (`Courier.step_turn`), and
  `Link.step_beside` what a stage of a delivery does to broker and store.
* `Course.Reaches` is a run of any length; invariants are proved along it step by step.
-/

namespace AuditRelay

variable {β σ : Type}

/-! ## Broker and store together -/

/-- A broker with the events that it has accepted, first to last, and a store. -/
structure Outside (β σ : Type) where
  broker : β
  published : List Event
  store : σ

/-- A connector and a buffer as the surroundings of one courier. Only a publish that succeeds is
recorded. -/
def Connector.beside (C : Connector β) (B : Buffer σ) : Surroundings (Outside β σ) where
  connect w := ((C.connect w.broker).1, { w with broker := (C.connect w.broker).2 })
  isClosed c w := C.isClosed c w.broker
  age c w := C.age c w.broker
  publish c e w :=
    match C.publish c e w.broker with
    | (.ok (), b) => (.ok (), { w with broker := b, published := w.published ++ [e] })
    | (.error f, b) => (.error f, { w with broker := b })
  disconnect c w := { w with broker := C.disconnect c w.broker }
  write e w := ((B.write e w.store).1, { w with store := (B.write e w.store).2 })
  read w := ((B.read w.store).1, { w with store := (B.read w.store).2 })
  commit b w := ((B.commit b w.store).1, { w with store := (B.commit b w.store).2 })
  refresh w := ((B.refresh w.store).1, { w with store := (B.refresh w.store).2 })

/-! ## One call of the courier -/

namespace Courier

/-- What a call can make of the courier, the intake and the world. -/
inductive Turn (S : Surroundings σ) (c : Courier) (i : Intake) (w : σ) :
    Courier → Intake → σ → Prop where
  | rests (h : c.phase = .idle ∨ c.phase = .stopped) : Turn S c i w c i w
  | delivered (e : Event) (failure : Option Fault) (h : c.phase = .delivering e (.done failure)) :
      Turn S c i w (c.delivered e failure) i w
  | delivers (e : Event) (d : Delivery) (h : c.phase = .delivering e d) (hd : d.result? = none) :
      Turn S c i w
        { c with
          link := (c.link.step S.toConnector e w d).2.1
          phase := .delivering e (c.link.step S.toConnector e w d).1 }
        i (c.link.step S.toConnector e w d).2.2
  | buffered (e : Event) (pass : Option Nat) (h : c.phase = .buffering e pass) :
      Turn S c i w (c.buffered e pass (S.write e w).1) i (S.write e w).2
  | collects (pass : Nat) (m : Message) (i' : Intake) (h : c.phase = .collecting pass)
      (hr : c.isReceiving = true) (ht : i.take = some (m, i')) :
      Turn S c i w { c with phase := .buffering m.event (some pass) } i' w
  | collected (pass : Nat) (c' : Courier) (h : c.phase = .collecting pass)
      (hc : c' = c ∨ c' = c.stopReceiving) (hr : c.isReceiving = true → i.take = none) :
      Turn S c i w { c' with phase := .reading pass } i w
  | read (pass : Nat) (h : c.phase = .reading pass) :
      Turn S c i w (c.gotBatch pass (S.read w).1) i (S.read w).2
  | replayed (pass : Nat) (b : Batch) (e : Event) (rest : List Event) (failure : Option Fault)
      (h : c.phase = .replaying pass b e rest (.done failure)) :
      Turn S c i w (c.replayed pass b rest failure) i w
  | replays (pass : Nat) (b : Batch) (e : Event) (rest : List Event) (d : Delivery)
      (h : c.phase = .replaying pass b e rest d) (hd : d.result? = none) :
      Turn S c i w
        { c with
          link := (c.link.step S.toConnector e w d).2.1
          phase := .replaying pass b e rest (c.link.step S.toConnector e w d).1 }
        i (c.link.step S.toConnector e w d).2.2
  | committed (pass : Nat) (b : Batch) (h : c.phase = .committing pass b) :
      Turn S c i w (c.committed pass b (S.commit b w).1) i (S.commit b w).2
  | refreshed (h : c.phase = .refreshing) :
      Turn S c i w { c with phase := .idle } i (S.refresh w).2

theorem step_turn (S : Surroundings σ) (c : Courier) (i : Intake) (w : σ) :
    Turn S c i w (c.step S i w).1 (c.step S i w).2.1 (c.step S i w).2.2 := by
  cases hp : c.phase with
  | idle =>
    rw [step, hp]
    exact .rests (.inl hp)
  | stopped =>
    rw [step, hp]
    exact .rests (.inr hp)
  | delivering e d =>
    cases d with
    | done failure =>
      simp only [step, hp]
      exact .delivered e failure hp
    | checking | releasing | connecting | publishing | discarding =>
      simp only [step, hp]
      exact .delivers e _ hp rfl
  | buffering e pass =>
    simp only [step, hp]
    exact .buffered e pass hp
  | collecting pass =>
    simp only [step, hp]
    by_cases hr : c.isReceiving = true
    · rw [if_pos hr]
      cases ht : i.take with
      | some p => exact .collects pass p.1 p.2 hp hr ht
      | none =>
        refine .collected pass _ hp ?_ fun _ => ht
        by_cases hx : i.isExhausted = true
        · exact .inr (if_pos hx)
        · exact .inl (if_neg hx)
    · rw [if_neg hr]
      exact .collected pass c hp (.inl rfl) fun h => absurd h hr
  | reading pass =>
    simp only [step, hp]
    exact .read pass hp
  | replaying pass b e rest d =>
    cases d with
    | done failure =>
      simp only [step, hp]
      exact .replayed pass b e rest failure hp
    | checking | releasing | connecting | publishing | discarding =>
      simp only [step, hp]
      exact .replays pass b e rest _ hp rfl
  | committing pass b =>
    simp only [step, hp]
    exact .committed pass b hp
  | refreshing =>
    simp only [step, hp]
    exact .refreshed hp

end Courier

/-! ## One delivery -/

namespace Delivery

/-- Whether the event of a delivery has been published. -/
def isPublished : Delivery → Bool
  | done none => true
  | _ => false

theorem isPublished_of_result? {d : Delivery} (h : d.result? = none) : d.isPublished = false := by
  cases d with
  | done r => cases r <;> contradiction
  | checking | releasing | connecting | publishing | discarding => rfl

end Delivery

/-- A stage of a delivery leaves the store alone. The broker accepts the event at the stage that
ends the delivery without a failure, and at no other. -/
theorem Link.step_beside (C : Connector β) (B : Buffer σ) (l : Link) (e : Event)
    (w : Outside β σ) {d : Delivery} (hd : d.result? = none) :
    (l.step (C.beside B).toConnector e w d).2.2.store = w.store ∧
    (l.step (C.beside B).toConnector e w d).2.2.published =
      w.published ++ if (l.step (C.beside B).toConnector e w d).1.isPublished then [e] else [] := by
  cases d with
  | checking =>
    cases hl : l.held with
    | none => simp [step, hl, Delivery.isPublished]
    | some c =>
      by_cases hs : l.isStale (C.beside B).toConnector c w = true
      · simp [step, hl, hs, Delivery.isPublished]
      · simp [step, hl, hs, Delivery.isPublished]
  | releasing c => simp [step, Connector.beside, Delivery.isPublished]
  | connecting =>
    rcases hc : C.connect w.broker with ⟨_ | _, b⟩ <;>
      simp [step, Connector.beside, hc, Delivery.isPublished]
  | publishing c =>
    rcases hc : C.publish c e w.broker with ⟨_ | _, b⟩ <;>
      simp [step, Connector.beside, hc, Delivery.isPublished]
  | discarding c f => simp [step, Connector.beside, Delivery.isPublished]
  | done r => cases r <;> contradiction

/-! ## The intake -/

namespace Intake

/-- A producer that has been given a place fills it. -/
def enter (i : Intake) (m : Message) : Intake :=
  { i with queue := i.queue ++ [m], granted := i.granted.erase m }

/-- A producer that waits for a place gives up waiting. -/
def leave (i : Intake) (m : Message) : Intake :=
  { i with waiting := i.waiting.erase m }

/-- A producer gives back the place that it was given. -/
def giveBack (i : Intake) (m : Message) : Intake :=
  { i with
    granted := i.granted.erase m ++ i.waiting.take 1
    waiting := i.waiting.drop 1 }

theorem queue_of_take {i i' : Intake} {m : Message} (h : i.take = some (m, i')) :
    i.queue = m :: i'.queue := by
  cases hq : i.queue with
  | nil => simp [take, hq] at h
  | cons m' queue =>
    simp only [take, hq, Option.some.injEq, Prod.mk.injEq] at h
    obtain ⟨rfl, rfl⟩ := h
    rfl

/-- What a step can make of the intake. Only a courier that is receiving takes something out. -/
inductive Change (receiving : Bool) (i : Intake) : Intake → Prop where
  | same : Change receiving i i
  | take (m : Message) (i' : Intake) (hr : receiving = true) (ht : i.take = some (m, i')) :
      Change receiving i i'
  | submit (m : Message) : Change receiving i (i.submit m)
  | enter (m : Message) (h : m ∈ i.granted) : Change receiving i (i.enter m)
  | leave (m : Message) (h : m ∈ i.waiting) : Change receiving i (i.leave m)
  | giveBack (m : Message) (h : m ∈ i.granted) : Change receiving i (i.giveBack m)
  | producers (n : Nat) : Change receiving i { i with producers := n }

end Intake

/-! ## The course of events -/

/-- The events of a batch before those that are left. -/
def Batch.before (b : Batch) (rest : List Event) : List Event :=
  b.events.take (b.events.length - rest.length)

/-- What a reading brings out of a store. -/
def Batch.brought : Except Fault (Option Batch) → Option Batch
  | .ok found => found
  | .error _ => none

namespace Phase

/-- The batch in progress. -/
def batch? : Phase → Option Batch
  | replaying _ b _ _ _ | committing _ b => some b
  | _ => none

/-- What the courier has received and neither published nor written nor parked. -/
def inHand : Phase → List Event
  | delivering e d => if d.isPublished then [] else [e]
  | buffering e _ => [e]
  | _ => []

/-- The events of the batch in progress that have been published already. -/
def replayed : Phase → List Event
  | replaying _ b e rest d => b.before (if d.isPublished then rest else e :: rest)
  | committing _ b => b.events
  | _ => []

/-- The same events, if the batch is given up next because the last publish has failed. -/
def givenUp : Phase → List Event
  | replaying _ b e rest (.done (some _)) => b.before (e :: rest)
  | _ => []

theorem givenUp_of_result? {pass : Nat} {b : Batch} {e : Event} {rest : List Event} {d : Delivery}
    (h : d.result? = none) : (replaying pass b e rest d).givenUp = [] := by
  cases d with
  | done r => cases r <;> contradiction
  | checking | releasing | connecting | publishing | discarding => rfl

end Phase

namespace Courier

@[simp] theorem batch?_endPass (c : Courier) (pass : Nat) : (c.endPass pass).phase.batch? = none := by
  cases pass with
  | zero => rfl
  | succ n => cases hp : c.parked <;> simp [endPass, hp, receive, Phase.batch?]

@[simp] theorem batch?_resume (c : Courier) (pass : Option Nat) :
    (c.resume pass).phase.batch? = none := by
  cases pass <;> rfl

@[simp] theorem batch?_replay (c : Courier) (pass : Nat) (b : Batch) (rest : List Event) :
    (c.replay pass b rest).phase.batch? = some b := by
  cases rest <;> rfl

@[simp] theorem batch?_buffered (c : Courier) (e : Event) (pass : Option Nat)
    (answer : Except Fault Unit) : (c.buffered e pass answer).phase.batch? = none := by
  cases answer with
  | ok u => exact batch?_resume _ pass
  | error f =>
    by_cases hf : f.isStoreFull = true
    · simp only [buffered, if_pos hf, batch?_resume]
    · simp only [buffered, if_neg hf, batch?_resume]

@[simp] theorem batch?_gotBatch (c : Courier) (pass : Nat) (answer : Except Fault (Option Batch)) :
    (c.gotBatch pass answer).phase.batch? = Batch.brought answer := by
  cases answer with
  | ok found =>
    cases found with
    | none => exact batch?_endPass c pass
    | some b => exact batch?_replay c pass b b.events
  | error f => exact batch?_endPass c pass

@[simp] theorem batch?_committed (c : Courier) (pass : Nat) (b : Batch)
    (answer : Except Fault Unit) : (c.committed pass b answer).phase.batch? = none := by
  cases answer with
  | ok u => rfl
  | error f => exact batch?_endPass c pass

end Courier

/-- A relay at work. -/
structure Course (β σ : Type) where
  courier : Courier
  intake : Intake
  world : Outside β σ
  /-- The events whose submission has come to its end, first to last. -/
  accepted : List Event
  /-- The published events of every batch that was given up at a failing publish. -/
  abandoned : List Event

namespace Course

/-- A relay that begins to work on an intake, in which there may be events already. -/
def start (maxAge : Nat) (counters : RelayCounters) (i : Intake) (broker : β) (store : σ) :
    Course β σ :=
  ⟨.create maxAge counters, i, ⟨broker, [], store⟩, i.queue.map Message.event, []⟩

/-- What has been published of batches that are not committed. -/
def replayed (c : Course β σ) : List Event :=
  c.abandoned ++ c.courier.phase.replayed

/-- The courier makes the call of its phase. -/
def call (C : Connector β) (B : Buffer σ) (c : Course β σ) : Course β σ :=
  { c with
    courier := (c.courier.step (C.beside B) c.intake c.world).1
    intake := (c.courier.step (C.beside B) c.intake c.world).2.1
    world := (c.courier.step (C.beside B) c.intake c.world).2.2
    abandoned := c.abandoned ++ c.courier.phase.givenUp }

/-- One step of a relay that has not been told to stop, of its producers or of its broker. -/
inductive Step (C : Connector β) (B : Buffer σ) (c : Course β σ) : Course β σ → Prop where
  | call : Step C B c (c.call C B)
  /-- The tick of a pass. -/
  | pass (h : c.courier.phase = .idle) : Step C B c { c with courier := c.courier.beginPass }
  /-- The tick of the metrics. -/
  | refresh (h : c.courier.phase = .idle) : Step C B c { c with courier := c.courier.beginRefresh }
  | receive (m : Message) (i : Intake) (h : c.courier.phase = .idle)
      (hr : c.courier.isReceiving = true) (ht : c.intake.take = some (m, i)) :
      Step C B c { c with courier := c.courier.receive m.event, intake := i }
  | exhausted (h : c.courier.phase = .idle) (hr : c.courier.isReceiving = true)
      (ht : c.intake.take = none) (hx : c.intake.isExhausted = true) :
      Step C B c { c with courier := c.courier.stopReceiving }
  | submit (m : Message) :
      Step C B c { c with
        intake := c.intake.submit m
        accepted := c.accepted ++ if c.intake.hasRoom then [m.event] else [] }
  | enter (m : Message) (h : m ∈ c.intake.granted) :
      Step C B c { c with intake := c.intake.enter m, accepted := c.accepted ++ [m.event] }
  | leave (m : Message) (h : m ∈ c.intake.waiting) :
      Step C B c { c with intake := c.intake.leave m }
  | giveBack (m : Message) (h : m ∈ c.intake.granted) :
      Step C B c { c with intake := c.intake.giveBack m }
  /-- Producers are added or dropped. -/
  | producers (n : Nat) : Step C B c { c with intake := { c.intake with producers := n } }
  /-- The broker comes or goes, or closes connections, or time passes. -/
  | broker (b : β) : Step C B c { c with world := { c.world with broker := b } }

/-- A call is a turn of the courier. Batches that are given up in it are written down. -/
theorem call_turn (C : Connector β) (B : Buffer σ) (c : Course β σ) :
    ∃ k i w, Courier.Turn (C.beside B) c.courier c.intake c.world k i w ∧
      c.call C B = ⟨k, i, w, c.accepted, c.abandoned ++ c.courier.phase.givenUp⟩ :=
  ⟨_, _, _, Courier.step_turn _ _ _ _, rfl⟩

/-- A call leaves the intake alone, or takes an event out of it. -/
theorem call_intake (C : Connector β) (B : Buffer σ) (c : Course β σ) :
    (c.call C B).intake = c.intake ∨
      c.courier.isReceiving = true ∧ ∃ m, c.intake.take = some (m, (c.call C B).intake) := by
  obtain ⟨k, i, w, ht, hcall⟩ := c.call_turn C B
  rw [hcall]
  cases ht with
  | collects pass m _ hp hr htake => exact .inr ⟨hr, m, htake⟩
  | rests | delivered | delivers | buffered | collected | read | replayed | replays | committed
  | refreshed => exact .inl rfl

theorem Step.change {C : Connector β} {B : Buffer σ} {c d : Course β σ} (hs : Step C B c d) :
    Intake.Change c.courier.isReceiving c.intake d.intake := by
  cases hs with
  | call =>
    rcases call_intake C B c with hsame | ⟨hr, m, ht⟩
    · rw [hsame]
      exact .same
    · exact .take m _ hr ht
  | receive m i hp hr ht => exact .take m i hr ht
  | submit m => exact .submit m
  | enter m hm => exact .enter m hm
  | leave m hm => exact .leave m hm
  | giveBack m hm => exact .giveBack m hm
  | producers n => exact .producers n
  | pass | refresh | exhausted | broker => exact .same

/-- One course of events leads to another. -/
abbrev Reaches (C : Connector β) (B : Buffer σ) : Course β σ → Course β σ → Prop :=
  Relation.ReflTransGen (Step C B)

/-- When all the places that have been given are filled at once, one producer fills its place after
the other. -/
theorem reaches_fill (C : Connector β) (B : Buffer σ) (c : Course β σ) :
    Reaches C B c { c with
      intake := c.intake.fill
      accepted := c.accepted ++ c.intake.granted.map Message.event } := by
  obtain ⟨courier, i, w, accepted, abandoned⟩ := c
  -- the places that are still to be filled
  induction hg : i.granted generalizing i accepted with
  | nil =>
    have hfill : i.fill = i := by
      obtain ⟨capacity, queue, granted, waiting, producers, closed⟩ := i
      obtain rfl : granted = [] := hg
      rw [Intake.fill, List.append_nil]
    simp only [hfill, List.map_nil, List.append_nil]
    exact .refl
  | cons m rest ih =>
    have hrest : (i.enter m).granted = rest := by
      rw [Intake.enter, hg, List.erase_cons_head]
    have hfill : (i.enter m).fill = i.fill := by
      simp only [Intake.fill, hrest]
      simp only [Intake.enter, hg, List.append_assoc, List.singleton_append]
    have hrun := ih (i.enter m) (accepted ++ [m.event]) hrest
    simp only [hfill, List.append_assoc, List.singleton_append] at hrun
    simp only [List.map_cons]
    exact .head (.enter m (hg ▸ List.mem_cons_self)) hrun

/-- The courier makes so many calls in a row. -/
def calls (C : Connector β) (B : Buffer σ) : Nat → Course β σ → Course β σ
  | 0, c => c
  | n + 1, c => calls C B n (c.call C B)

theorem reaches_calls (C : Connector β) (B : Buffer σ) (n : Nat) (c : Course β σ) :
    Reaches C B c (c.calls C B n) := by
  induction n generalizing c with
  | zero => exact .refl
  | succ n ih => exact .head .call (ih _)

end Course

/-- What a free relay takes up at any time is one of the steps. -/
theorem Relay.select_step (C : Connector β) (B : Buffer σ) {r r' : Relay} {i i' : Intake}
    {now : Nat} (hp : r.courier.phase = .idle) (h : r.select i now = some (r', i'))
    (w : Outside β σ) (accepted abandoned : List Event) :
    Course.Step C B ⟨r.courier, i, w, accepted, abandoned⟩
      ⟨r'.courier, i', w, accepted, abandoned⟩ := by
  simp only [select] at h
  split at h
  · -- a pass is due
    obtain ⟨rfl, rfl⟩ := Prod.mk.inj (Option.some.inj h)
    exact .pass hp
  · split at h
    · -- a refresh is due
      obtain ⟨rfl, rfl⟩ := Prod.mk.inj (Option.some.inj h)
      exact .refresh hp
    · split at h
      · rename_i hr
        split at h
        · rename_i m i₁ ht
          obtain ⟨rfl, rfl⟩ := Prod.mk.inj (Option.some.inj h)
          exact .receive m i₁ hp hr ht
        · rename_i ht
          split at h
          · rename_i hx
            obtain ⟨rfl, rfl⟩ := Prod.mk.inj (Option.some.inj h)
            exact .exhausted hp hr ht hx
          · contradiction
      · contradiction

end AuditRelay
