import AuditRelay.Proofs.Relay.Buffers
import AuditRelay.Proofs.Relay.Course
import AuditRelay.Proofs.Store.Readers
import Mathlib.Data.Multiset.AddSub

/-!
# AuditRelay.Proofs.Relay.Delivery — where every accepted event is

A relay over a store in memory of its own. An accepted event is at one place: published, stored,
parked, in the hand of the courier, or waiting at the intake. The one exception is a batch that was
given up half-way: what had been published of it is published and stored, and is published again
later (`delivery_balance`).

The sum is kept by an invariant, `Course.Balanced`: the batch in progress is the whole store, so a
commit by number takes out the events that were published, and no others.
-/

namespace AuditRelay

namespace Phase

/-- Whether a received event is being dealt with, for which the parked place must be free. -/
def isCarrying : Phase → Bool
  | delivering _ _ | buffering _ _ => true
  | _ => false

/-- The events of the batch in progress from the present one on. -/
def ahead : Phase → List Event
  | replaying _ _ e rest _ => e :: rest
  | _ => []

end Phase

namespace Batch

/-- The events before those left are what the batch begins with. -/
theorem before_append (b : Batch) {done left : List Event} (h : b.events = done ++ left) :
    b.before left = done := by
  simp [before, h]

end Batch

/-- The events that the courier has taken out of the intake and still has. -/
def Courier.held (c : Courier) : List Event :=
  c.parked.toList ++ c.phase.inHand

variable {β : Type}

namespace Course

/-- What a relay over its own store in memory keeps to. -/
structure Balanced (c : Course β MemoryStore) : Prop where
  /-- Nothing is received while an event is parked. -/
  single : c.courier.phase.isCarrying = true → c.courier.parked = none
  /-- The batch in progress is the whole store. -/
  whole : ∀ b, c.courier.phase.batch? = some b →
    b.token = .oldest b.events.length ∧ c.world.store.events = b.events
  /-- The events that are left of a batch are its last ones. -/
  tail : ∀ b, c.courier.phase.batch? = some b → ∃ done, b.events = done ++ c.courier.phase.ahead
  places : ∀ a,
    c.world.published.count a + c.world.store.events.count a + c.courier.held.count a +
        (c.intake.queue.map Message.event).count a =
      c.accepted.count a + c.replayed.count a

end Course

/-! ## What the calls do -/

namespace Courier

theorem parked_of_isReceiving {c : Courier} (h : c.isReceiving = true) : c.parked = none := by
  simp only [isReceiving, Bool.and_eq_true, Option.isNone_iff_eq_none] at h
  exact h.2

theorem held_of_inHand {c : Courier} (h : c.phase.inHand = []) : c.held = c.parked.toList := by
  rw [held, h, List.append_nil]

/-- A pass that ends leaves no batch behind, and what was parked is parked or in hand. -/
theorem endPass_leaves (c : Courier) (pass : Nat) :
    (c.endPass pass).held = c.parked.toList ∧ (c.endPass pass).phase.replayed = [] ∧
    ((c.endPass pass).phase.isCarrying = true → (c.endPass pass).parked = none) := by
  cases pass with
  | zero => simp [endPass, held, Phase.inHand, Phase.replayed, Phase.isCarrying]
  | succ n =>
    cases hp : c.parked <;>
      simp [endPass, receive, hp, held, Phase.inHand, Phase.replayed, Phase.isCarrying,
        Delivery.isPublished]

/-- After an event has been dealt with, the courier has what is parked. -/
theorem resume_leaves (c : Courier) (pass : Option Nat) :
    (c.resume pass).held = c.parked.toList ∧ (c.resume pass).phase.replayed = [] ∧
    (c.resume pass).phase.isCarrying = false := by
  cases pass <;>
    simp [resume, held, Phase.inHand, Phase.replayed, Phase.isCarrying]

/-- The courier turns to the rest of a batch: what has been published is what comes before. -/
theorem replay_leaves (c : Courier) (pass : Nat) (b : Batch) {done rest : List Event}
    (h : b.events = done ++ rest) :
    (c.replay pass b rest).held = c.parked.toList ∧
    (c.replay pass b rest).phase.replayed = done ∧
    (c.replay pass b rest).phase.ahead = rest ∧
    (c.replay pass b rest).phase.isCarrying = false := by
  cases rest with
  | nil =>
    have hd : done = b.events := by simp [h]
    simp [replay, held, Phase.inHand, Phase.replayed, Phase.ahead, Phase.isCarrying, hd]
  | cons e left =>
    have hd : b.before (e :: left) = done := b.before_append h
    simp [replay, held, Phase.inHand, Phase.replayed, Phase.ahead, Phase.isCarrying,
      Delivery.isPublished, hd]

end Courier

namespace Course

variable {C : Connector β} {c : Course β MemoryStore}

/-- The answer to a publish has been counted. -/
theorem Balanced.turn_delivered (h : Balanced c) {e : Event} {failure : Option Fault}
    (hp : c.courier.phase = .delivering e (.done failure)) :
    Balanced ⟨c.courier.delivered e failure, c.intake, c.world, c.accepted,
      c.abandoned ++ c.courier.phase.givenUp⟩ := by
  obtain ⟨single, whole, tail, places⟩ := h
  have hfree : c.courier.parked = none := single (by rw [hp]; rfl)
  have hplaces := places
  simp only [Courier.held, replayed, hp, hfree, Phase.inHand, Phase.replayed] at hplaces
  cases failure with
  | none =>
    -- the event was published before, and no place changes
    refine ⟨fun _ => hfree, ?_, ?_, fun a => ?_⟩
    · simp [Courier.delivered, Phase.batch?]
    · simp [Courier.delivered, Phase.batch?]
    · simpa [Courier.held, replayed, Courier.delivered, hfree, hp, Phase.inHand, Phase.replayed,
        Phase.givenUp, Delivery.isPublished] using hplaces a
  | some f =>
    -- it stays in hand
    refine ⟨fun _ => hfree, ?_, ?_, fun a => ?_⟩
    · simp [Courier.delivered, Phase.batch?]
    · simp [Courier.delivered, Phase.batch?]
    · simpa [Courier.held, replayed, Courier.delivered, hfree, hp, Phase.inHand, Phase.replayed,
        Phase.givenUp, Delivery.isPublished] using hplaces a

/-- The delivery of the event in hand goes on. -/
theorem Balanced.turn_delivers (h : Balanced c) {e : Event} {d : Delivery}
    (hp : c.courier.phase = .delivering e d) (hd : d.result? = none) :
    Balanced ⟨{ c.courier with
        link := (c.courier.link.step (C.beside MemoryStore.buffer).toConnector e c.world d).2.1
        phase := .delivering e
          (c.courier.link.step (C.beside MemoryStore.buffer).toConnector e c.world d).1 },
      c.intake, (c.courier.link.step (C.beside MemoryStore.buffer).toConnector e c.world d).2.2,
      c.accepted, c.abandoned ++ c.courier.phase.givenUp⟩ := by
  obtain ⟨single, whole, tail, places⟩ := h
  have hfree : c.courier.parked = none := single (by rw [hp]; rfl)
  obtain ⟨hs, hw⟩ := Link.step_beside C MemoryStore.buffer c.courier.link e c.world hd
  refine ⟨fun _ => hfree, ?_, ?_, fun a => ?_⟩
  · simp [Phase.batch?]
  · simp [Phase.batch?]
  · have hplaces := places a
    simp only [Courier.held, replayed, hp, hfree, Phase.inHand, Phase.replayed,
      Delivery.isPublished_of_result? hd] at hplaces
    simp only [Courier.held, replayed, hp, hfree, Phase.inHand, Phase.replayed, Phase.givenUp,
      hs, hw]
    -- the event goes from the hand of the courier to the broker, or stays
    split
    · simp_all
      omega
    · simp_all

/-- A write has come to its end. -/
theorem Balanced.turn_buffered (h : Balanced c) {e : Event} {pass : Option Nat}
    (hp : c.courier.phase = .buffering e pass) :
    Balanced ⟨c.courier.buffered e pass ((C.beside MemoryStore.buffer).write e c.world).1, c.intake,
      ((C.beside MemoryStore.buffer).write e c.world).2, c.accepted,
      c.abandoned ++ c.courier.phase.givenUp⟩ := by
  obtain ⟨single, whole, tail, places⟩ := h
  have hfree : c.courier.parked = none := single (by rw [hp]; rfl)
  have hplaces := places
  simp only [Courier.held, replayed, hp, hfree, Phase.inHand, Phase.replayed] at hplaces
  rcases MemoryStore.write_cases c.world.store e with ⟨hr, hs⟩ | ⟨f, hr, hf, hs⟩
  · -- written: it goes from the hand of the courier to the store
    simp only [Connector.beside, MemoryStore.buffer, hr, Courier.buffered]
    obtain ⟨hheld, hrep, hcarry⟩ := Courier.resume_leaves
      { c.courier with counters := { c.courier.counters with
        buffered := c.courier.counters.buffered + 1 } } pass
    refine ⟨by simp [hcarry], by simp, by simp, fun a => ?_⟩
    have hsum := hplaces a
    simp only [hheld, replayed, hrep, hs]
    simp only [hp, Phase.givenUp, hfree, Option.toList_none, List.nil_append, List.append_nil,
      List.count_append, List.count_nil] at hsum ⊢
    omega
  · -- full: it goes from the hand of the courier to the parked place, which was free
    simp only [Connector.beside, MemoryStore.buffer, hr, Courier.buffered, if_pos hf]
    obtain ⟨hheld, hrep, hcarry⟩ := Courier.resume_leaves
      { c.courier with
        parked := some e
        counters := { c.courier.counters with backpressure := true } } pass
    refine ⟨by simp [hcarry], by simp, by simp, fun a => ?_⟩
    simp only [hheld, replayed, hrep, hs]
    simpa [hp, Phase.givenUp] using hplaces a

/-- A pass takes an event out of the intake. -/
theorem Balanced.turn_collects (h : Balanced c) {pass : Nat} {m : Message} {i : Intake}
    (hp : c.courier.phase = .collecting pass) (hr : c.courier.isReceiving = true)
    (htake : c.intake.take = some (m, i)) :
    Balanced ⟨{ c.courier with phase := .buffering m.event (some pass) }, i, c.world, c.accepted,
      c.abandoned ++ c.courier.phase.givenUp⟩ := by
  obtain ⟨single, whole, tail, places⟩ := h
  have hfree : c.courier.parked = none := Courier.parked_of_isReceiving hr
  have hq : c.intake.queue = m :: i.queue := Intake.queue_of_take htake
  refine ⟨fun _ => hfree, ?_, ?_, fun a => ?_⟩
  · simp [Phase.batch?]
  · simp [Phase.batch?]
  · have hplaces := places a
    simp only [Courier.held, replayed, hp, hfree, Phase.inHand, Phase.replayed, hq] at hplaces
    simp only [Courier.held, replayed, hp, hfree, Phase.inHand, Phase.replayed, Phase.givenUp]
    -- it goes from the intake to the hand of the courier
    simp only [Option.toList_none, List.nil_append, List.append_nil, List.map_cons,
      List.count_nil, List.count_cons] at hplaces ⊢
    omega

/-- A batch has been read, or there is none. -/
theorem Balanced.turn_read (h : Balanced c) {pass : Nat} (hp : c.courier.phase = .reading pass) :
    Balanced ⟨c.courier.gotBatch pass ((C.beside MemoryStore.buffer).read c.world).1, c.intake,
      ((C.beside MemoryStore.buffer).read c.world).2, c.accepted,
      c.abandoned ++ c.courier.phase.givenUp⟩ := by
  obtain ⟨single, whole, tail, places⟩ := h
  obtain ⟨hs, hb⟩ := MemoryStore.nextBatch_cases c.world.store
  have hplaces := places
  simp only [Courier.held, replayed, hp, Phase.inHand, Phase.replayed] at hplaces
  rcases hb with hb | hb
  · -- nothing is left: the pass ends
    simp only [Connector.beside, MemoryStore.buffer, hb, Courier.gotBatch]
    obtain ⟨hheld, hrep, hcarry⟩ := Courier.endPass_leaves c.courier pass
    refine ⟨hcarry, by simp, by simp, fun a => ?_⟩
    simpa [hheld, replayed, hrep, hs, hp, Phase.givenUp] using hplaces a
  · simp only [Connector.beside, MemoryStore.buffer, hb, Courier.gotBatch]
    have hall : (⟨c.world.store.events, .oldest c.world.store.events.length⟩ : Batch).events =
        [] ++ c.world.store.events := rfl
    obtain ⟨hheld, hrep, hahead, hcarry⟩ :=
      Courier.replay_leaves c.courier pass _ hall
    refine ⟨by simp [hcarry], ?_, ?_, fun a => ?_⟩
    · simp [hs]
    · simp [hahead]
    · simpa [hheld, replayed, hrep, hs, hp, Phase.givenUp] using hplaces a

/-- The answer to a publish of the batch has come. -/
theorem Balanced.turn_replayed (h : Balanced c) {pass : Nat} {b : Batch} {e : Event}
    {rest : List Event} {failure : Option Fault}
    (hp : c.courier.phase = .replaying pass b e rest (.done failure)) :
    Balanced ⟨c.courier.replayed pass b rest failure, c.intake, c.world, c.accepted,
      c.abandoned ++ c.courier.phase.givenUp⟩ := by
  obtain ⟨single, whole, tail, places⟩ := h
  obtain ⟨done, hdone⟩ := tail b (by rw [hp]; rfl)
  have hwhole := whole b (by rw [hp]; rfl)
  simp only [hp, Phase.ahead] at hdone
  have hplaces := places
  cases failure with
  | none =>
    -- one more event of the batch has been published
    have hdone' : b.events = (done ++ [e]) ++ rest := by simpa using hdone
    obtain ⟨hheld, hrep, hahead, hcarry⟩ := Courier.replay_leaves c.courier pass b hdone'
    simp only [Courier.held, replayed, hp, Phase.inHand, Phase.replayed, Delivery.isPublished,
      if_true, b.before_append hdone'] at hplaces
    simp only [Courier.replayed]
    refine ⟨by simp [hcarry], ?_, ?_, fun a => ?_⟩
    · simpa using hwhole
    · simpa [hahead] using ⟨_, hdone'⟩
    · simpa [hheld, replayed, hrep, hp, Phase.givenUp] using hplaces a
  | some f =>
    -- the batch is given up: what was published of it is published in vain
    obtain ⟨hheld, hrep, hcarry⟩ := Courier.endPass_leaves
      { c.courier with counters := { c.courier.counters with
        publishFailures := c.courier.counters.publishFailures + 1 } } pass
    simp only [Courier.held, replayed, hp, Phase.inHand, Phase.replayed, Delivery.isPublished,
      Bool.false_eq_true, if_false] at hplaces
    simp only [Courier.replayed]
    refine ⟨hcarry, by simp, by simp, fun a => ?_⟩
    simp only [hheld, replayed, hrep]
    simpa [hp, Phase.givenUp] using hplaces a

/-- The delivery of an event of the batch goes on. -/
theorem Balanced.turn_replays (h : Balanced c) {pass : Nat} {b : Batch} {e : Event} {rest : List Event}
    {d : Delivery} (hp : c.courier.phase = .replaying pass b e rest d) (hd : d.result? = none) :
    Balanced ⟨{ c.courier with
        link := (c.courier.link.step (C.beside MemoryStore.buffer).toConnector e c.world d).2.1
        phase := .replaying pass b e rest
          (c.courier.link.step (C.beside MemoryStore.buffer).toConnector e c.world d).1 },
      c.intake, (c.courier.link.step (C.beside MemoryStore.buffer).toConnector e c.world d).2.2,
      c.accepted, c.abandoned ++ c.courier.phase.givenUp⟩ := by
  obtain ⟨single, whole, tail, places⟩ := h
  obtain ⟨done, hdone⟩ := tail b (by rw [hp]; rfl)
  have hwhole := whole b (by rw [hp]; rfl)
  simp only [hp, Phase.ahead] at hdone
  obtain ⟨hs, hw⟩ := Link.step_beside C MemoryStore.buffer c.courier.link e c.world hd
  refine ⟨by simp [Phase.isCarrying], ?_, ?_, fun a => ?_⟩
  · simpa [Phase.batch?, hs] using hwhole
  · simpa [Phase.batch?, Phase.ahead] using ⟨_, hdone⟩
  · have hplaces := places a
    have hdone' : b.events = (done ++ [e]) ++ rest := by simpa using hdone
    simp only [Courier.held, Course.replayed, hp, Phase.inHand, Phase.replayed,
      Delivery.isPublished_of_result? hd, Bool.false_eq_true, if_false,
      b.before_append hdone] at hplaces
    simp only [Courier.held, Course.replayed, hp, Phase.inHand, Phase.replayed,
      Phase.givenUp_of_result? hd, hs, hw]
    -- a published event of a batch is published and stored
    split
    · rw [b.before_append hdone']
      simp only [List.append_nil, List.count_append] at hplaces ⊢
      omega
    · simpa [b.before_append hdone] using hplaces

/-- The batch has been committed. -/
theorem Balanced.turn_committed (h : Balanced c) {pass : Nat} {b : Batch}
    (hp : c.courier.phase = .committing pass b) :
    Balanced ⟨c.courier.committed pass b ((C.beside MemoryStore.buffer).commit b c.world).1, c.intake,
      ((C.beside MemoryStore.buffer).commit b c.world).2, c.accepted,
      c.abandoned ++ c.courier.phase.givenUp⟩ := by
  obtain ⟨single, whole, tail, places⟩ := h
  obtain ⟨htoken, hstore⟩ := whole b (by rw [hp]; rfl)
  have hplaces := places
  simp only [Courier.held, replayed, hp, Phase.inHand, Phase.replayed, hstore] at hplaces
  simp only [Connector.beside, MemoryStore.buffer, htoken, Courier.committed]
  refine ⟨by simp [Phase.isCarrying], by simp [Phase.batch?], by simp [Phase.batch?],
    fun a => ?_⟩
  -- the batch was the whole store, and all of it has been published
  have hempty : (c.world.store.commit b.events.length).events = [] := by
    simp [MemoryStore.commit, hstore]
  have hsum := hplaces a
  simp only [Courier.held, replayed, hp, Phase.inHand, Phase.replayed, Phase.givenUp, hempty,
    List.append_nil, List.count_append, List.count_nil] at hsum ⊢
  omega

/-- A call of the courier keeps the balance. -/
theorem Balanced.turn (h : Balanced c) {k : Courier} {i : Intake} {w : Outside β MemoryStore}
    (ht : Courier.Turn (C.beside MemoryStore.buffer) c.courier c.intake c.world k i w) :
    Balanced ⟨k, i, w, c.accepted, c.abandoned ++ c.courier.phase.givenUp⟩ := by
  have places := h.places
  cases ht with
  | rests hp =>
    have hg : c.courier.phase.givenUp = [] := by rcases hp with hp | hp <;> rw [hp] <;> rfl
    exact ⟨h.single, h.whole, h.tail, by simpa [hg, Course.replayed] using places⟩
  | delivered e failure hp => exact h.turn_delivered hp
  | delivers e d hp hd => exact h.turn_delivers hp hd
  | buffered e pass hp => exact h.turn_buffered hp
  | collects pass m _ hp hr htake => exact h.turn_collects hp hr htake
  | collected pass c' hp hc hr =>
    have hk : c'.parked = c.courier.parked := by rcases hc with rfl | rfl <;> rfl
    refine ⟨by simp [Phase.isCarrying], by simp [Phase.batch?], by simp [Phase.batch?],
      fun a => ?_⟩
    have hplaces := places a
    simp only [Courier.held, replayed, hp, Phase.inHand, Phase.replayed] at hplaces
    simpa [Courier.held, replayed, hp, hk, Phase.inHand, Phase.replayed, Phase.givenUp] using hplaces
  | read pass hp => exact h.turn_read hp
  | replayed pass b e rest failure hp => exact h.turn_replayed hp
  | replays pass b e rest d hp hd => exact h.turn_replays hp hd
  | committed pass b hp => exact h.turn_committed hp
  | refreshed hp =>
    refine ⟨by simp [Phase.isCarrying], by simp [Phase.batch?], by simp [Phase.batch?],
      fun a => ?_⟩
    have hplaces := places a
    simp only [Courier.held, replayed, hp, Phase.inHand, Phase.replayed] at hplaces
    simpa [Courier.held, replayed, hp, Phase.inHand, Phase.replayed, Phase.givenUp,
      Connector.beside, MemoryStore.buffer, MemoryStore.refreshGauges] using hplaces

/-- Every step keeps the balance. -/
theorem Balanced.step {C : Connector β} {c c' : Course β MemoryStore} (h : Balanced c)
    (hs : Step C MemoryStore.buffer c c') : Balanced c' := by
  cases hs with
  | call => exact h.turn (Courier.step_turn _ _ _ _)
  | pass hp =>
    have hplaces := h.places
    simp only [Courier.held, replayed, hp, Phase.inHand, Phase.replayed] at hplaces
    exact ⟨by simp [Courier.beginPass, Phase.isCarrying], by simp [Courier.beginPass, Phase.batch?],
      by simp [Courier.beginPass, Phase.batch?],
      by simpa [Courier.held, replayed, Courier.beginPass, Phase.inHand, Phase.replayed] using
        hplaces⟩
  | refresh hp =>
    have hplaces := h.places
    simp only [Courier.held, replayed, hp, Phase.inHand, Phase.replayed] at hplaces
    exact ⟨by simp [Courier.beginRefresh, Phase.isCarrying],
      by simp [Courier.beginRefresh, Phase.batch?], by simp [Courier.beginRefresh, Phase.batch?],
      by simpa [Courier.held, replayed, Courier.beginRefresh, Phase.inHand, Phase.replayed] using
        hplaces⟩
  | receive m i hp hr htake =>
    have hfree : c.courier.parked = none := Courier.parked_of_isReceiving hr
    have hq : c.intake.queue = m :: i.queue := Intake.queue_of_take htake
    refine ⟨fun _ => hfree, by simp [Courier.receive, Phase.batch?],
      by simp [Courier.receive, Phase.batch?], fun a => ?_⟩
    -- the event goes from the intake to the hand of the courier
    have hsum := h.places a
    simp only [Courier.held, replayed, Courier.receive, hp, hfree, hq, Phase.inHand, Phase.replayed,
      Delivery.isPublished, Bool.false_eq_true, if_false, Option.toList_none, List.nil_append,
      List.append_nil, List.map_cons, List.count_nil, List.count_cons] at hsum ⊢
    omega
  | exhausted hp hr ht hx => exact ⟨h.single, h.whole, h.tail, h.places⟩
  | submit m =>
    refine ⟨h.single, h.whole, h.tail, fun a => ?_⟩
    have hsum := h.places a
    -- a submission is accepted at once if there is room
    by_cases hroom : c.intake.hasRoom = true
    · simp only [replayed, Intake.submit, hroom, if_true, List.map_append, List.map_cons,
        List.map_nil, List.count_append] at hsum ⊢
      omega
    · simpa [replayed, Intake.submit, hroom] using hsum
  | enter m hm =>
    refine ⟨h.single, h.whole, h.tail, fun a => ?_⟩
    have hsum := h.places a
    simp only [replayed, Intake.enter, List.map_append, List.map_cons, List.map_nil,
      List.count_append] at hsum ⊢
    omega
  | leave | giveBack | producers | broker => exact ⟨h.single, h.whole, h.tail, h.places⟩

theorem Balanced.reaches {C : Connector β} {c c' : Course β MemoryStore} (h : Balanced c)
    (hr : Reaches C MemoryStore.buffer c c') : Balanced c' := by
  induction hr with
  | refl => exact h
  | tail _ hs ih => exact ih.step hs

theorem balanced_start (maxAge : Nat) (counters : RelayCounters) (i : Intake) (broker : β)
    {m : MemoryStore} (hm : m.events = []) : Balanced (start maxAge counters i broker m) := by
  refine ⟨fun _ => rfl, ?_, ?_, fun a => ?_⟩
  · simp [start, Courier.create, Phase.batch?]
  · simp [start, Courier.create, Phase.batch?]
  · simp [start, Courier.create, Courier.held, replayed, Phase.inHand, Phase.replayed, hm]

end Course

/-! ## Accounting -/

/-- At every time of a run over an empty store in memory, for every broker and every order of
submissions, ticks and receipts: what is published, stored, parked, in hand and waiting is what was
accepted and what was published in vain. So no accepted event is lost, and one that is published
more often than it was accepted belongs to a batch that was not committed. -/
theorem delivery_balance (C : Connector β) (maxAge : Nat) (counters : RelayCounters) (i : Intake)
    (broker : β) {m : MemoryStore} (hm : m.events = []) {c : Course β MemoryStore}
    (h : Course.Reaches C MemoryStore.buffer (.start maxAge counters i broker m) c) :
    (↑c.world.published + ↑c.world.store.events + ↑c.courier.parked.toList +
        ↑c.courier.phase.inHand + ↑(c.intake.queue.map Message.event) : Multiset Event) =
      ↑c.accepted + ↑c.replayed ∧
    (∀ e ∈ c.accepted, e ∈ c.world.published ∨ e ∈ c.world.store.events ∨
      c.courier.parked = some e ∨ e ∈ c.courier.phase.inHand ∨
      e ∈ c.intake.queue.map Message.event) ∧
    (∀ e, c.accepted.count e < c.world.published.count e → e ∈ c.replayed) := by
  have hb := ((Course.balanced_start maxAge counters i broker hm).reaches h).places
  refine ⟨?_, ?_, ?_⟩
  · ext a
    have hsum := hb a
    simp only [Courier.held, List.count_append] at hsum
    simp only [Multiset.count_add, Multiset.coe_count]
    omega
  · intro e he
    have hpos : 0 < c.accepted.count e := List.count_pos_iff.mpr he
    have hsum := hb e
    simp only [Courier.held, List.count_append] at hsum
    by_contra hnot
    simp only [not_or] at hnot
    obtain ⟨h₁, h₂, h₃, h₄, h₅⟩ := hnot
    have h₃' : e ∉ c.courier.parked.toList := by simpa [Option.mem_toList] using h₃
    rw [List.count_eq_zero.mpr h₁, List.count_eq_zero.mpr h₂, List.count_eq_zero.mpr h₃',
      List.count_eq_zero.mpr h₄, List.count_eq_zero.mpr h₅] at hsum
    omega
  · intro e he
    have hsum := hb e
    exact List.count_pos_iff.mp (by omega)

namespace Course

/-- Two events wait for a relay over an empty store. -/
def twoWaiting : Course Nat MemoryStore :=
  start 300 .zero ⟨2, [⟨0, .new "a"⟩, ⟨1, .new "b"⟩], [], [], 1, false⟩ 0 ⟨2, [], .zero false⟩

/-- An event is received and goes through the six calls that buffer it during an outage. -/
def bufferNext (c : Course Nat MemoryStore) : Course Nat MemoryStore :=
  match c.intake.take with
  | some (m, i) =>
    calls quotaConnector MemoryStore.buffer 6
      { c with courier := c.courier.receive m.event, intake := i }
  | none => c

/-- Both events are buffered, and then a pass publishes the first and fails at the second. -/
def halfPublished : Course Nat MemoryStore :=
  let c := bufferNext (bufferNext twoWaiting)
  calls quotaConnector MemoryStore.buffer 10
    { c with world := { c.world with broker := 1 }, courier := c.courier.beginPass }

theorem reaches_halfPublished :
    Reaches quotaConnector MemoryStore.buffer twoWaiting halfPublished := by
  refine .head (.receive ⟨0, .new "a"⟩ _ rfl rfl rfl) ?_
  refine (reaches_calls _ _ 6 _).trans ?_
  refine .head (.receive ⟨1, .new "b"⟩ _ rfl rfl rfl) ?_
  refine (reaches_calls _ _ 6 _).trans ?_
  refine .head (.broker 1) ?_
  refine .head (.pass rfl) ?_
  exact reaches_calls _ _ 10 _

end Course

/-- The event that was published in vain is counted twice on both sides. -/
theorem delivery_balance_halfPublished :
    Course.halfPublished.world.published = [.new "a"] ∧
    Course.halfPublished.world.store.events = [.new "a", .new "b"] ∧
    Course.halfPublished.replayed = [.new "a"] ∧
    (↑Course.halfPublished.world.published + ↑Course.halfPublished.world.store.events +
        ↑Course.halfPublished.courier.parked.toList + ↑Course.halfPublished.courier.phase.inHand +
        ↑(Course.halfPublished.intake.queue.map Message.event) : Multiset Event) =
      ↑Course.halfPublished.accepted + ↑Course.halfPublished.replayed := by
  refine ⟨by decide, by decide, by decide, ?_⟩
  exact (delivery_balance quotaConnector 300 .zero _ 0 rfl Course.reaches_halfPublished).1

end AuditRelay
