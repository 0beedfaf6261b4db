import AuditRelay.Proofs.Relay.Delivery

/-!
# AuditRelay.Proofs.Relay.Tallies — what the counters of a relay add up to

Every event that has left the intake is published, written, dropped or parked, or the courier is
still at it, and every one of the first three is counted when the courier goes on to the next thing.
So between two of them the counters and the parked place make up the number of events received,
whatever broker and store have answered (`relay_counters_balance`). An event that was parked comes
back to the courier and is counted only when it has found its place.

* `Course.Answers` is a run with the answers that the link has given to its publishes.
* `Courier.tally` counts the events that the courier has taken, and `Courier.refusals` the answers
  that were errors. `Courier.Turn.tallies` is what a call does to the two.
-/

namespace AuditRelay

variable {β σ : Type}

/-! ## The answers to the publishes -/

namespace Phase

/-- The answer to the publish at hand, once it has come. -/
def answer? : Phase → Option (Except Fault Unit)
  | delivering _ d | replaying _ _ _ _ d => d.result?
  | _ => none

/-- The answer that has come between one phase and the next. -/
def answered (before after : Phase) : List (Except Fault Unit) :=
  if before.answer? = none then after.answer?.toList else []

/-- As long as the courier does nothing, no answer comes. -/
theorem answered_self (p : Phase) : p.answered p = [] := by
  rw [answered]
  split
  · rename_i hp
    rw [hp]
    rfl
  · rfl

end Phase

/-- How many of the answers are errors. -/
def errorCount (answers : List (Except Fault Unit)) : Nat :=
  answers.countP fun answer => !answer.isOk

/-- A run from one course to another, with the answers to its publishes, first to last. -/
inductive Course.Answers (C : Connector β) (B : Buffer σ) (c : Course β σ) :
    Course β σ → List (Except Fault Unit) → Prop where
  | refl : Answers C B c c []
  | tail {d d' : Course β σ} {answers : List (Except Fault Unit)} (h : Answers C B c d answers)
      (hs : Step C B d d') :
      Answers C B c d' (answers ++ d.courier.phase.answered d'.courier.phase)

/-- Every run has its answers. -/
theorem Course.Reaches.answers {C : Connector β} {B : Buffer σ} {c d : Course β σ}
    (h : Reaches C B c d) : ∃ answers, Answers C B c d answers := by
  induction h with
  | refl => exact ⟨[], .refl⟩
  | tail _ hs ih =>
    obtain ⟨answers, ha⟩ := ih
    exact ⟨_, ha.tail hs⟩

/-! ## What the courier has counted -/

namespace Courier

/-- The events that are counted or parked. -/
def settled (c : Courier) : Nat :=
  c.counters.published + c.counters.buffered + c.counters.dropped + c.parked.toList.length

/-- The events that the courier has taken: those that are settled, and the one that it is at. -/
def tally (c : Courier) : Nat :=
  c.settled + if c.phase.isCarrying then 1 else 0

/-- The publishes that have failed: those that are counted, and the one whose answer has just
come. -/
def refusals (c : Courier) : Nat :=
  c.counters.publishFailures + errorCount c.phase.answer?.toList

/-- A courier that is at no received event and has no answer before it; its counters and the parked
place are those of `c`. -/
structure Rested (c k : Courier) : Prop where
  carrying : k.phase.isCarrying = true → k.parked = none
  tally : k.tally = c.settled
  answer : k.phase.answer? = none
  failures : k.counters.publishFailures = c.counters.publishFailures

theorem rested_endPass (c : Courier) (pass : Nat) : Rested c (c.endPass pass) := by
  cases pass with
  | zero => exact ⟨Bool.noConfusion, rfl, rfl, rfl⟩
  | succ n =>
    cases hp : c.parked with
    | none =>
      constructor <;> simp [endPass, hp, Phase.isCarrying, tally, settled, Phase.answer?]
    | some e =>
      -- the parked event is the one in hand again
      constructor <;>
        simp [endPass, hp, receive, Phase.isCarrying, tally, settled, Phase.answer?,
          Delivery.result?]

theorem rested_resume (c : Courier) (pass : Option Nat) : Rested c (c.resume pass) := by
  cases pass with
  | none => exact ⟨Bool.noConfusion, rfl, rfl, rfl⟩
  | some n => exact ⟨Bool.noConfusion, rfl, rfl, rfl⟩

theorem rested_replay (c : Courier) (pass : Nat) (b : Batch) (rest : List Event) :
    Rested c (c.replay pass b rest) := by
  cases rest with
  | nil => exact ⟨Bool.noConfusion, rfl, rfl, rfl⟩
  | cons e left => exact ⟨Bool.noConfusion, rfl, rfl, rfl⟩

theorem rested_gotBatch (c : Courier) (pass : Nat) (answer : Except Fault (Option Batch)) :
    Rested c (c.gotBatch pass answer) := by
  rcases answer with f | _ | b
  · exact c.rested_endPass pass
  · exact c.rested_endPass pass
  · exact c.rested_replay pass b b.events

theorem rested_committed (c : Courier) (pass : Nat) (b : Batch) (answer : Except Fault Unit) :
    Rested c (c.committed pass b answer) := by
  cases answer with
  | error f => exact c.rested_endPass pass
  | ok u => exact ⟨Bool.noConfusion, rfl, rfl, rfl⟩

/-- However a write ends, the event is settled: it is counted, or it is parked where there was
none. -/
theorem rested_buffered {c : Courier} (hfree : c.parked = none) (e : Event) (pass : Option Nat)
    (answer : Except Fault Unit) :
    ∃ k : Courier, Rested k (c.buffered e pass answer) ∧ k.settled = c.settled + 1 ∧
      k.counters.publishFailures = c.counters.publishFailures := by
  cases answer with
  | ok u =>
    refine ⟨_, rested_resume _ pass, ?_, rfl⟩
    simp only [settled]
    omega
  | error f =>
    by_cases hf : f.isStoreFull = true
    · rw [buffered, if_pos hf]
      refine ⟨_, rested_resume _ pass, ?_, rfl⟩
      simp [settled, hfree]
    · rw [buffered, if_neg hf]
      refine ⟨_, rested_resume _ pass, ?_, rfl⟩
      simp only [settled]
      omega

/-! ## What a call does -/

/-- The events that have left the intake and the answers that were errors are all told. -/
structure Tallies (c k : Courier) (i j : Intake) : Prop where
  carrying : k.phase.isCarrying = true → k.parked = none
  tally : k.tally + j.queue.length = c.tally + i.queue.length
  refusals : k.refusals = c.refusals + errorCount (c.phase.answered k.phase)
  waiting : j.queue <:+ i.queue

variable {S : Surroundings σ} {c k l : Courier} {i j : Intake} {w w' : σ}

/-- As long as no answer is at hand, a new one is a new one. -/
theorem refusals_of_answer (hc : c.phase.answer? = none)
    (hk : k.counters.publishFailures = c.counters.publishFailures) :
    k.refusals = c.refusals + errorCount (c.phase.answered k.phase) := by
  rw [refusals, refusals, Phase.answered, if_pos hc, hc, hk]
  rfl

/-- The courier has settled what it was at and goes on. -/
theorem Rested.tallies (h : Rested l k) (hsettled : l.settled = c.tally)
    (hfailures : l.counters.publishFailures = c.refusals) : Tallies c k i i := by
  constructor
  · exact h.carrying
  · rw [h.tally, hsettled]
  · have hnone : errorCount (c.phase.answered k.phase) = 0 := by
      rw [Phase.answered, h.answer]
      split
      · rfl
      · rfl
    rw [hnone, refusals, h.answer, h.failures]
    exact hfailures
  · exact List.suffix_rfl

/-- The link goes on with the publish at hand. -/
theorem tallies_of_link (hsingle : c.phase.isCarrying = true → c.parked = none)
    (hcarry : k.phase.isCarrying = c.phase.isCarrying) (hparked : k.parked = c.parked)
    (hcounters : k.counters = c.counters) (hanswer : c.phase.answer? = none) :
    Tallies c k i i := by
  constructor
  · rw [hcarry, hparked]
    exact hsingle
  · rw [tally, tally, settled, settled, hcarry, hparked, hcounters]
  · apply refusals_of_answer hanswer
    rw [hcounters]
  · exact List.suffix_rfl

/-- An event is taken out of the intake. -/
theorem tallies_of_take {m : Message} (hr : c.isReceiving = true) (ht : i.take = some (m, j))
    (hcarry : c.phase.isCarrying = false) (hcarry' : k.phase.isCarrying = true)
    (hanswer : c.phase.answer? = none) (hparked : k.parked = c.parked)
    (hcounters : k.counters = c.counters) : Tallies c k i j := by
  have hq := Intake.queue_of_take ht
  constructor
  · intro _
    rw [hparked]
    exact parked_of_isReceiving hr
  · rw [hq, tally, tally, settled, settled, hcarry, hcarry', hparked, hcounters, if_pos rfl,
      if_neg Bool.noConfusion, List.length_cons]
    omega
  · apply refusals_of_answer hanswer
    rw [hcounters]
  · rw [hq]
    exact List.suffix_cons m j.queue

/-- A publish is counted as such, or as a failure with the event still in hand. -/
theorem tallies_delivered (hsingle : c.phase.isCarrying = true → c.parked = none) {e : Event}
    {failure : Option Fault} (hp : c.phase = .delivering e (.done failure)) :
    Tallies c (c.delivered e failure) i i := by
  have hfree : c.parked = none := hsingle (by rw [hp]; rfl)
  cases failure with
  | none =>
    have hrested : Rested (c.delivered e none) (c.delivered e none) :=
      ⟨fun _ => hfree, rfl, rfl, rfl⟩
    refine hrested.tallies ?_ ?_
    · simp only [settled, Courier.delivered, tally, hp, Phase.isCarrying, if_true]
      omega
    · rw [refusals, hp]
      rfl
  | some f =>
    constructor
    · exact fun _ => hfree
    · rw [tally, tally, hp]
      rfl
    · rw [refusals, refusals, hp]
      rfl
    · exact List.suffix_rfl

/-- The answer to a publish of the batch has come. -/
theorem tallies_replayed {pass : Nat} {b : Batch} {e : Event} {rest : List Event}
    {failure : Option Fault} (hp : c.phase = .replaying pass b e rest (.done failure)) :
    Tallies c (c.replayed pass b rest failure) i i := by
  cases failure with
  | none =>
    refine (c.rested_replay pass b rest).tallies ?_ ?_
    · rw [tally, hp]
      rfl
    · rw [refusals, hp]
      rfl
  | some f =>
    refine (rested_endPass _ pass).tallies ?_ ?_
    · rw [tally, hp]
      rfl
    · rw [refusals, hp]
      rfl

theorem Turn.tallies (h : Turn S c i w k j w')
    (hsingle : c.phase.isCarrying = true → c.parked = none) : Tallies c k i j := by
  cases h with
  | rests hp =>
    refine tallies_of_link hsingle rfl rfl rfl ?_
    rcases hp with hp | hp
    · rw [hp]
      rfl
    · rw [hp]
      rfl
  | delivered e failure hp => exact tallies_delivered hsingle hp
  | delivers e d hp hd =>
    refine tallies_of_link hsingle ?_ rfl rfl ?_
    · rw [hp]
      rfl
    · rw [hp]
      exact hd
  | buffered e pass hp =>
    have hfree : c.parked = none := hsingle (by rw [hp]; rfl)
    obtain ⟨l, hrested, hsettled, hfailures⟩ := rested_buffered hfree e pass (S.write e w).1
    refine hrested.tallies ?_ ?_
    · rw [hsettled, tally, hp]
      rfl
    · rw [hfailures, refusals, hp]
      rfl
  | collects pass m j hp hr ht =>
    refine tallies_of_take hr ht ?_ rfl ?_ rfl rfl
    · rw [hp]
      rfl
    · rw [hp]
      rfl
  | collected pass c' hp hc hr =>
    have hsame : c'.parked = c.parked ∧ c'.counters = c.counters := by
      rcases hc with rfl | rfl
      · exact ⟨rfl, rfl⟩
      · exact ⟨rfl, rfl⟩
    refine tallies_of_link hsingle ?_ hsame.1 hsame.2 ?_
    · rw [hp]
      rfl
    · rw [hp]
      rfl
  | read pass hp =>
    refine (c.rested_gotBatch pass _).tallies ?_ ?_
    · rw [tally, hp]
      rfl
    · rw [refusals, hp]
      rfl
  | replayed pass b e rest failure hp => exact tallies_replayed hp
  | replays pass b e rest d hp hd =>
    refine tallies_of_link hsingle ?_ rfl rfl ?_
    · rw [hp]
      rfl
    · rw [hp]
      exact hd
  | committed pass b hp =>
    refine (c.rested_committed pass b _).tallies ?_ ?_
    · rw [tally, hp]
      rfl
    · rw [refusals, hp]
      rfl
  | refreshed hp =>
    refine tallies_of_link hsingle ?_ rfl rfl ?_
    · rw [hp]
      rfl
    · rw [hp]
      rfl

end Courier

/-! ## What holds along a run -/

namespace Course

/-- What the counters of a relay keep to that began with all of them zero, after so many answers. -/
structure Tallied (c : Course β σ) (answers : List (Except Fault Unit)) : Prop where
  /-- Nothing is received while an event is parked. -/
  carrying : c.courier.phase.isCarrying = true → c.courier.parked = none
  tally : c.courier.tally + c.intake.queue.length = c.accepted.length
  refusals : c.courier.refusals = errorCount answers
  /-- The intake is first in, first out. -/
  waiting : c.intake.queue.map Message.event <:+ c.accepted

variable {C : Connector β} {B : Buffer σ} {c d : Course β σ}
  {answers : List (Except Fault Unit)}

/-- The courier makes a step of its own, with or without the intake. -/
theorem Tallied.courier (h : Tallied c answers) {k : Courier} {j : Intake}
    (hk : Courier.Tallies c.courier k c.intake j) (w : Outside β σ) (abandoned : List Event) :
    Tallied ⟨k, j, w, c.accepted, abandoned⟩ (answers ++ c.courier.phase.answered k.phase) := by
  constructor
  · exact hk.carrying
  · rw [hk.tally]
    exact h.tally
  · rw [hk.refusals, h.refusals, errorCount, errorCount, errorCount, List.countP_append]
  · obtain ⟨taken, htaken⟩ := hk.waiting
    have hwaiting := h.waiting
    rw [← htaken, List.map_append] at hwaiting
    exact (List.suffix_append _ _).trans hwaiting

/-- A submission comes to its end. -/
theorem Tallied.accept (h : Tallied c answers) {m : Message} {j : Intake}
    (hj : j.queue = c.intake.queue ++ [m]) :
    Tallied { c with intake := j, accepted := c.accepted ++ [m.event] } answers := by
  constructor
  · exact h.carrying
  · have hsum := h.tally
    simp only [hj, List.length_append, List.length_singleton]
    omega
  · exact h.refusals
  · obtain ⟨taken, htaken⟩ := h.waiting
    refine ⟨taken, ?_⟩
    rw [hj, List.map_append, List.map_singleton, ← List.append_assoc, htaken]

theorem Tallied.step (h : Tallied c answers) (hs : Step C B c d) :
    Tallied d (answers ++ c.courier.phase.answered d.courier.phase) := by
  have hstill : Tallied c (answers ++ c.courier.phase.answered c.courier.phase) := by
    rw [Phase.answered_self, List.append_nil]
    exact h
  cases hs with
  | call =>
    have hturn := Courier.step_turn (C.beside B) c.courier c.intake c.world
    exact h.courier (hturn.tallies h.carrying) _ _
  | pass hp =>
    have hk : Courier.Tallies c.courier c.courier.beginPass c.intake c.intake := by
      refine Courier.tallies_of_link h.carrying ?_ rfl rfl ?_
      · rw [hp]
        rfl
      · rw [hp]
        rfl
    exact h.courier hk c.world _
  | refresh hp =>
    have hk : Courier.Tallies c.courier c.courier.beginRefresh c.intake c.intake := by
      refine Courier.tallies_of_link h.carrying ?_ rfl rfl ?_
      · rw [hp]
        rfl
      · rw [hp]
        rfl
    exact h.courier hk c.world _
  | receive m j hp hr ht =>
    have hk : Courier.Tallies c.courier (c.courier.receive m.event) c.intake j := by
      refine Courier.tallies_of_take hr ht ?_ rfl ?_ rfl rfl
      · rw [hp]
        rfl
      · rw [hp]
        rfl
    exact h.courier hk c.world _
  | exhausted hp hr ht hx =>
    have hk : Courier.Tallies c.courier c.courier.stopReceiving c.intake c.intake := by
      refine Courier.tallies_of_link h.carrying rfl rfl rfl ?_
      rw [hp]
      rfl
    exact h.courier hk c.world _
  | submit m =>
    by_cases hroom : c.intake.hasRoom = true
    · rw [if_pos hroom]
      refine hstill.accept ?_
      rw [Intake.submit, if_pos hroom]
    · rw [if_neg hroom, List.append_nil]
      have hsame : (c.intake.submit m).queue = c.intake.queue := by
        rw [Intake.submit, if_neg hroom]
      constructor
      · exact hstill.carrying
      · rw [hsame]
        exact hstill.tally
      · exact hstill.refusals
      · rw [hsame]
        exact hstill.waiting
  | enter m hm => exact hstill.accept rfl
  | leave | giveBack | producers | broker =>
    exact ⟨hstill.carrying, hstill.tally, hstill.refusals, hstill.waiting⟩

theorem Tallied.run (h : Tallied c []) (ha : Answers C B c d answers) : Tallied d answers := by
  induction ha with
  | refl => exact h
  | tail _ hs ih => exact ih.step hs

theorem tallied_start (maxAge : Nat) (i : Intake) (broker : β) (store : σ) :
    Tallied (start maxAge .zero i broker store) [] := by
  constructor
  · exact Bool.noConfusion
  · simp [start, Courier.create, Courier.tally, Courier.settled, Phase.isCarrying,
      RelayCounters.zero]
  · rfl
  · exact List.suffix_rfl

/-! ## Over a store in memory -/

/-- What the counters keep to over a store that was empty at first: a write that fails has found it
full, and what leaves it has been counted as drained. -/
structure Stocked (c : Course β MemoryStore) : Prop where
  balanced : Balanced c
  dropped : c.courier.counters.dropped = 0
  stored : c.courier.counters.buffered =
    c.courier.counters.drained + c.world.store.events.length

end Course

namespace Courier

/-- The counters that a store has to do with. -/
structure KeepsStock (c k : Courier) : Prop where
  dropped : k.counters.dropped = c.counters.dropped
  buffered : k.counters.buffered = c.counters.buffered
  drained : k.counters.drained = c.counters.drained

theorem keepsStock_endPass (c : Courier) (pass : Nat) : KeepsStock c (c.endPass pass) := by
  cases pass with
  | zero => exact ⟨rfl, rfl, rfl⟩
  | succ n =>
    cases hp : c.parked with
    | none => constructor <;> simp [endPass, hp]
    | some e => constructor <;> simp [endPass, hp, receive]

theorem keepsStock_resume (c : Courier) (pass : Option Nat) : KeepsStock c (c.resume pass) := by
  cases pass with
  | none => exact ⟨rfl, rfl, rfl⟩
  | some n => exact ⟨rfl, rfl, rfl⟩

theorem keepsStock_replay (c : Courier) (pass : Nat) (b : Batch) (rest : List Event) :
    KeepsStock c (c.replay pass b rest) := by
  cases rest with
  | nil => exact ⟨rfl, rfl, rfl⟩
  | cons e left => exact ⟨rfl, rfl, rfl⟩

theorem keepsStock_gotBatch (c : Courier) (pass : Nat) (answer : Except Fault (Option Batch)) :
    KeepsStock c (c.gotBatch pass answer) := by
  rcases answer with f | _ | b
  · exact c.keepsStock_endPass pass
  · exact c.keepsStock_endPass pass
  · exact c.keepsStock_replay pass b b.events

theorem keepsStock_delivered (c : Courier) (e : Event) (failure : Option Fault) :
    KeepsStock c (c.delivered e failure) := by
  cases failure with
  | none => exact ⟨rfl, rfl, rfl⟩
  | some f => exact ⟨rfl, rfl, rfl⟩

theorem keepsStock_replayed (c : Courier) (pass : Nat) (b : Batch) (rest : List Event)
    (failure : Option Fault) : KeepsStock c (c.replayed pass b rest failure) := by
  cases failure with
  | none => exact c.keepsStock_replay pass b rest
  | some f =>
    obtain ⟨hdropped, hbuffered, hdrained⟩ := keepsStock_endPass
      { c with counters := { c.counters with
        publishFailures := c.counters.publishFailures + 1 } } pass
    exact ⟨hdropped, hbuffered, hdrained⟩

end Courier

namespace Course

variable {C : Connector β} {c d : Course β MemoryStore}

/-- The courier does something that has nothing to do with the store. -/
theorem Stocked.keeps (h : Stocked c) (hd : Balanced d)
    (hk : Courier.KeepsStock c.courier d.courier)
    (hevents : d.world.store.events = c.world.store.events) : Stocked d := by
  constructor
  · exact hd
  · rw [hk.dropped]
    exact h.dropped
  · rw [hk.buffered, hk.drained, hevents]
    exact h.stored

theorem Stocked.call (h : Stocked c) : Stocked (c.call C MemoryStore.buffer) := by
  have hb : Balanced (c.call C MemoryStore.buffer) := h.balanced.step .call
  obtain ⟨k, j, w, ht, hcall⟩ := c.call_turn C MemoryStore.buffer
  rw [hcall] at hb ⊢
  cases ht with
  | rests hp => exact h.keeps hb ⟨rfl, rfl, rfl⟩ rfl
  | delivered e failure hp => exact h.keeps hb (c.courier.keepsStock_delivered e failure) rfl
  | delivers e d hp hd =>
    exact h.keeps hb ⟨rfl, rfl, rfl⟩ (by rw [(Link.step_beside C _ _ e c.world hd).1])
  | buffered e pass hp =>
    rcases MemoryStore.write_cases c.world.store e with ⟨hr, hevents⟩ | ⟨f, hr, hf, hevents⟩
    · -- one more is in the store, and counted
      constructor
      · exact hb
      · simp only [Connector.beside, MemoryStore.buffer, hr, Courier.buffered]
        rw [(Courier.keepsStock_resume _ pass).dropped]
        exact h.dropped
      · have hstored := h.stored
        simp only [Connector.beside, MemoryStore.buffer, hr, Courier.buffered, hevents]
        rw [(Courier.keepsStock_resume _ pass).buffered, (Courier.keepsStock_resume _ pass).drained,
          List.length_append, List.length_singleton, ← Nat.add_assoc]
        exact congrArg (· + 1) hstored
    · -- the store is full
      refine h.keeps hb ?_ hevents
      simp only [Connector.beside, MemoryStore.buffer, hr, Courier.buffered, if_pos hf]
      obtain ⟨hdropped, hbuffered, hdrained⟩ := Courier.keepsStock_resume
        { c.courier with
          parked := some e
          counters := { c.courier.counters with backpressure := true } } pass
      exact ⟨hdropped, hbuffered, hdrained⟩
  | collects pass m j hp hr ht => exact h.keeps hb ⟨rfl, rfl, rfl⟩ rfl
  | collected pass c' hp hc hr =>
    refine h.keeps hb ?_ rfl
    rcases hc with rfl | rfl
    · exact ⟨rfl, rfl, rfl⟩
    · exact ⟨rfl, rfl, rfl⟩
  | read pass hp =>
    exact h.keeps hb (c.courier.keepsStock_gotBatch pass _)
      (MemoryStore.nextBatch_cases c.world.store).1
  | replayed pass b e rest failure hp =>
    exact h.keeps hb (c.courier.keepsStock_replayed pass b rest failure) rfl
  | replays pass b e rest d hp hd =>
    exact h.keeps hb ⟨rfl, rfl, rfl⟩ (by rw [(Link.step_beside C _ _ e c.world hd).1])
  | committed pass b hp =>
    -- the batch was the whole store
    obtain ⟨htoken, hevents⟩ := h.balanced.whole b (by rw [hp]; rfl)
    have hstored := h.stored
    constructor
    · exact hb
    · simp only [Connector.beside, MemoryStore.buffer, htoken, Courier.committed]
      exact h.dropped
    · simp only [Connector.beside, MemoryStore.buffer, htoken, Courier.committed,
        MemoryStore.commit, hevents, List.drop_length, List.length_nil]
      rw [hevents] at hstored
      omega
  | refreshed hp => exact h.keeps hb ⟨rfl, rfl, rfl⟩ rfl

theorem Stocked.step (h : Stocked c) (hs : Step C MemoryStore.buffer c d) : Stocked d := by
  have hbalanced := h.balanced.step hs
  cases hs with
  | call => exact h.call
  | pass | refresh | receive | exhausted | submit | enter | leave | giveBack | producers | broker =>
    exact h.keeps hbalanced ⟨rfl, rfl, rfl⟩ rfl

theorem Stocked.reaches (h : Stocked c) (hr : Reaches C MemoryStore.buffer c d) : Stocked d := by
  induction hr with
  | refl => exact h
  | tail _ hs ih => exact ih.step hs

theorem stocked_start (maxAge : Nat) (i : Intake) (broker : β) {m : MemoryStore}
    (hm : m.events = []) : Stocked (start maxAge .zero i broker m) := by
  constructor
  · exact balanced_start maxAge .zero i broker hm
  · rfl
  · rw [start, hm]
    rfl

end Course

/-! ## The balance -/

/-- Whenever a relay is free that began with its counters at zero, whatever broker and store have
answered: the events that have left the intake, which are the first of the accepted ones, are as many
as have been counted as published, buffered or dropped, and one more if one is parked; and as many
failures are counted as publishes have been answered with an error. Over a store in memory that was
empty at first nothing is dropped, and what has been buffered is drained or stored. -/
theorem relay_counters_balance (C : Connector β) (maxAge : Nat) (i : Intake) (broker : β) :
    (∀ (B : Buffer σ) (store : σ) (c : Course β σ) (answers : List (Except Fault Unit)),
      Course.Answers C B (.start maxAge .zero i broker store) c answers →
      c.courier.phase = .idle →
      (∃ taken, c.accepted = taken ++ c.intake.queue.map Message.event ∧
        taken.length = c.courier.counters.published + c.courier.counters.buffered +
          c.courier.counters.dropped + if c.courier.parked.isSome then 1 else 0) ∧
      c.courier.counters.publishFailures = errorCount answers) ∧
    (∀ (m : MemoryStore) (c : Course β MemoryStore), m.events = [] →
      Course.Reaches C MemoryStore.buffer (.start maxAge .zero i broker m) c →
      c.courier.phase = .idle →
      c.courier.counters.dropped = 0 ∧
      c.courier.counters.buffered =
        c.courier.counters.drained + c.world.store.events.length) := by
  constructor
  · intro B store c answers ha hidle
    have h := (Course.tallied_start maxAge i broker store).run ha
    constructor
    · obtain ⟨taken, htaken⟩ := h.waiting
      refine ⟨taken, htaken.symm, ?_⟩
      have hsum := h.tally
      rw [← htaken, List.length_append, List.length_map, Courier.tally, hidle] at hsum
      have hsettled : c.courier.settled = taken.length := by
        simp only [Phase.isCarrying, Bool.false_eq_true, if_false] at hsum
        omega
      rw [← hsettled, Courier.settled]
      cases c.courier.parked with
      | none => rfl
      | some e => rfl
    · have hrefusals := h.refusals
      rw [Courier.refusals, hidle] at hrefusals
      exact hrefusals
  · intro m c hm hr _
    have h := (Course.stocked_start maxAge i broker hm).reaches hr
    exact ⟨h.dropped, h.stored⟩

/-- Two events are buffered after a failure each, and a pass fails after the first of them: three
answers are errors. -/
theorem relay_counters_balance_halfPublished :
    Course.halfPublished.courier.phase = .idle ∧
    (∃ answers, Course.Answers quotaConnector MemoryStore.buffer Course.twoWaiting
        Course.halfPublished answers ∧
      Course.halfPublished.courier.counters.publishFailures = errorCount answers) ∧
    Course.halfPublished.courier.counters.publishFailures = 3 ∧
    Course.halfPublished.courier.counters.buffered =
      Course.halfPublished.courier.counters.drained +
        Course.halfPublished.world.store.events.length ∧
    Course.halfPublished.world.store.events.length = 2 := by
  have hidle : Course.halfPublished.courier.phase = .idle := by decide
  obtain ⟨answers, ha⟩ := Course.reaches_halfPublished.answers
  have hbalance := relay_counters_balance (σ := MemoryStore) quotaConnector 300
    ⟨2, [⟨0, .new "a"⟩, ⟨1, .new "b"⟩], [], [], 1, false⟩ 0
  refine ⟨hidle, ⟨answers, ha, ?_⟩, by decide, ?_, by decide⟩
  · exact (hbalance.1 MemoryStore.buffer _ _ answers ha hidle).2
  · exact (hbalance.2 _ _ rfl Course.reaches_halfPublished hidle).2

end AuditRelay
