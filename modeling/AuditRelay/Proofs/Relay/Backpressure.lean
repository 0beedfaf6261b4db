import AuditRelay.Proofs.Relay.Dropped
import AuditRelay.Proofs.Relay.Pause
import AuditRelay.Proofs.Relay.Shutdown
import AuditRelay.Proofs.Relay.Submissions

/-!
# AuditRelay.Proofs.Relay.Backpressure — how many events a relay lets in

A relay over a store in memory of its own. The gauge tells at any time whether an event is parked; as
long as one is, nothing is taken out of the intake and nothing else is parked in its place. So there
are never more events inside than the store and the intake can hold, and one more
(`backpressure_exact`).

When the broker accepts nothing the bound is reached: of more submissions than that, exactly as many
come to their end, and the others wait. The invariant is `Course.Inside`: an accepted event is at one
place inside at most, and the store is full if an event is parked and nothing has been published.
-/

namespace AuditRelay

variable {β σ : Type}

/-! ## A store in memory -/

namespace MemoryStore

variable {limit : Nat}

/-- A store for so many events, which are not exceeded, and a batch that is not empty. -/
def IsSoundFor (limit : Nat) (b : Option Batch) (s : MemoryStore) : Prop :=
  s.limit = limit ∧ s.events.length ≤ limit ∧ ∀ q ∈ b, q.events ≠ []

/-- There are no events. -/
def IsDrained (s : MemoryStore) : Prop :=
  s.events = []

namespace IsSoundFor

variable {b : Option Batch} {s : MemoryStore}

theorem drop (h : IsSoundFor limit b s) : IsSoundFor limit none s :=
  ⟨h.1, h.2.1, fun q hq => by cases hq⟩

theorem write (h : IsSoundFor limit b s) (e : Event) : IsSoundFor limit none (s.write e).2 := by
  obtain ⟨rfl, hle, -⟩ := h
  exact ⟨limit_write s e, length_write_le hle, fun q hq => by cases hq⟩

theorem read (h : IsSoundFor limit b s) : IsSoundFor limit s.nextBatch.1 s.nextBatch.2 := by
  obtain ⟨rfl, hle, -⟩ := h
  refine ⟨limit_nextBatch s, ?_, fun q hq => events_ne_nil_of_nextBatch hq⟩
  exact (congrArg List.length s.nextBatch_cases.1).trans_le hle

/-- Only the oldest events are committed. -/
theorem commit (h : IsSoundFor limit b s) (q : Batch) :
    IsSoundFor limit none (buffer.commit q s).2 := by
  cases ht : q.token with
  | oldest count =>
    have hcommit : buffer.commit q s = (.ok (), s.commit count) := by
      unfold buffer
      simp only [ht]
    rw [hcommit]
    refine ⟨h.1, ?_, fun q hq => by cases hq⟩
    have hle := h.2.1
    show (s.events.drop count).length ≤ limit
    rw [List.length_drop]
    omega
  | file | rows =>
    have hcommit : buffer.commit q s = (.ok (), s) := by
      unfold buffer
      simp only [ht]
    rw [hcommit]
    exact h.drop

end IsSoundFor

/-- A reading finds nothing only in an empty store. -/
theorem isDrained_of_nextBatch {s : MemoryStore} (hnone : s.nextBatch.1 = none) :
    IsDrained s.nextBatch.2 := by
  refine s.nextBatch_cases.1.trans ?_
  unfold nextBatch at hnone
  split at hnone
  · rename_i hempty
    exact List.isEmpty_iff.mp hempty
  · cases hnone

theorem IsDrained.nextBatch {s : MemoryStore} (h : IsDrained s) : s.nextBatch.1 = none := by
  have hempty : s.events = [] := h
  rw [MemoryStore.nextBatch, hempty]
  rfl

/-- The limit is not zero, so an empty store is not full. -/
theorem IsDrained.write_ne_error {s : MemoryStore} (h : IsDrained s) (hlimit : 0 < s.limit) {e : Event}
    {f : Fault} : (s.write e).1 ≠ .error f := by
  intro hf
  have hfull := le_length_of_write hf
  have hempty : s.events = [] := h
  rw [hempty, List.length_nil] at hfull
  omega

theorem drains (hlimit : 0 < limit) : buffer.Drains (IsSoundFor limit) IsDrained where
  write e _ h := h.write e
  read _ h := h.read
  commit b _ h := h.commit b
  drop _ _ h := h.drop
  refresh _ h := h
  empty_read _ _ hnone := isDrained_of_nextBatch (Except.ok.inj hnone)
  room _ _ _ h hd hf := absurd hf (hd.write_ne_error (h.1.symm ▸ hlimit))
  read_empty _ _ hd := congrArg Except.ok hd.nextBatch
  refresh_empty _ _ hd := hd

end MemoryStore

/-! ## The parked event -/

namespace Courier

/-- The end of a pass leaves a parked event where it is, or takes it in hand. -/
theorem endPass_parked {c : Courier} {e : Event} (he : c.parked = some e) (pass : Nat) :
    (c.endPass pass).parked = some e ∨
      ((c.endPass pass).parked = none ∧ (c.endPass pass).phase.inHand = [e]) := by
  cases pass with
  | zero => exact .inl he
  | succ n =>
    right
    rw [endPass, he]
    exact ⟨rfl, rfl⟩

/-- The end of a pass parks nothing. -/
theorem isSome_parked_endPass (c : Courier) (pass : Nat) :
    (c.endPass pass).parked.isSome = true → c.parked.isSome = true := by
  cases pass with
  | zero => exact id
  | succ n =>
    rw [(c.endPass_succ n).1]
    exact fun h => absurd h Bool.false_ne_true

theorem replay_parked (c : Courier) (pass : Nat) (b : Batch) (rest : List Event) :
    (c.replay pass b rest).parked = c.parked := by
  cases rest with
  | nil => rfl
  | cons e left => rfl

/-- No call puts another event in place of the parked one. -/
theorem Turn.parked {S : Surroundings σ} {c k : Courier} {i j : Intake} {w w' : σ}
    (h : Turn S c i w k j w') (hsingle : c.phase.isCarrying = true → c.parked = none) {e : Event}
    (he : c.parked = some e) :
    k.parked = some e ∨ (k.parked = none ∧ k.phase.inHand = [e]) := by
  have hbusy : c.phase.isCarrying = true → False := by
    intro hcarry
    rw [hsingle hcarry] at he
    cases he
  cases h with
  | rests hp => exact .inl he
  | delivered e' failure hp =>
    rw [hp] at hbusy
    exact absurd rfl hbusy
  | delivers e' d hp hd =>
    rw [hp] at hbusy
    exact absurd rfl hbusy
  | buffered e' pass hp =>
    rw [hp] at hbusy
    exact absurd rfl hbusy
  | collects pass m _ hp hr ht =>
    rw [parked_of_isReceiving hr] at he
    cases he
  | collected pass c' hp hc hr =>
    left
    rcases hc with rfl | rfl
    · exact he
    · exact he
  | read pass hp =>
    rcases (S.read w).1 with f | _ | b
    · exact endPass_parked he pass
    · exact endPass_parked he pass
    · exact .inl ((c.replay_parked pass b b.events).trans he)
  | replayed pass b e' rest failure hp =>
    cases failure with
    | none => exact .inl ((c.replay_parked pass b rest).trans he)
    | some f =>
      exact endPass_parked (c := { c with counters := { c.counters with
        publishFailures := c.counters.publishFailures + 1 } }) he pass
  | replays pass b e' rest d hp hd => exact .inl he
  | committed pass b hp =>
    rcases (S.commit b w).1 with f | u
    · exact endPass_parked he pass
    · exact .inl he
  | refreshed hp => exact .inl he

end Courier

namespace Course

variable {C : Connector β} {B : Buffer σ} {c d : Course β σ}

theorem Step.parked (hs : Step C B c d)
    (hsingle : c.courier.phase.isCarrying = true → c.courier.parked = none) {e : Event}
    (he : c.courier.parked = some e) :
    d.courier.parked = some e ∨
      (d.courier.parked = none ∧ d.courier.phase.inHand = [e]) := by
  cases hs with
  | call => exact (Courier.step_turn _ _ _ _).parked hsingle he
  | receive m i hp hr ht =>
    rw [Courier.parked_of_isReceiving hr] at he
    cases he
  | pass | refresh | exhausted | submit | enter | leave | giveBack | producers | broker =>
    exact .inl he

end Course

/-! ## The events inside -/

namespace Course

variable {C : Connector β} {limit : Nat} {c d : Course β MemoryStore}

/-- What a relay over a store for so many events keeps to. -/
structure Inside (limit : Nat) (c : Course β MemoryStore) : Prop where
  balanced : Balanced c
  keeps : Keeps (MemoryStore.IsSoundFor limit) c
  /-- An accepted event is in the store, in hand or parked, or in the intake, at one place only. -/
  once : ∀ a, c.world.store.events.count a + c.courier.held.count a +
    (c.intake.queue.map Message.event).count a ≤ c.accepted.count a
  /-- As long as nothing has been published, room that was wanting is wanting still. -/
  full : c.world.published = [] → c.courier.parked.isSome = true →
    limit ≤ c.world.store.events.length

/-- The courier goes on, and no event goes anywhere but out. -/
theorem Inside.goesOn (h : Inside limit c) {k : Courier} {w : Outside β MemoryStore}
    {abandoned : List Event} (hb : Balanced ⟨k, c.intake, w, c.accepted, abandoned⟩)
    (hk : Keeps (MemoryStore.IsSoundFor limit) ⟨k, c.intake, w, c.accepted, abandoned⟩)
    (hevents : w.store.events = c.world.store.events)
    (hpublished : c.world.published <+: w.published)
    (hheld : ∀ a, k.held.count a ≤ c.courier.held.count a)
    (hparked : k.parked.isSome = true → c.courier.parked.isSome = true) :
    Inside limit ⟨k, c.intake, w, c.accepted, abandoned⟩ := by
  constructor
  · exact hb
  · exact hk
  · intro a
    have hsum := h.once a
    have hle := hheld a
    simp only [hevents]
    omega
  · intro hnone hsome
    have hbefore : c.world.published = [] := List.prefix_nil.mp (hnone ▸ hpublished)
    simp only [hevents]
    exact h.full hbefore (hparked hsome)

/-- What has been published in vain has been published. -/
theorem Inside.count_replayed_le (h : Inside limit c) (a : Event) :
    c.replayed.count a ≤ c.world.published.count a := by
  have hsum := h.balanced.places a
  have hle := h.once a
  omega

/-- A write brings the event into the store, or finds the store full and parks it. -/
theorem Inside.buffered (h : Inside limit c) {e : Event} {pass : Option Nat}
    (hp : c.courier.phase = .buffering e pass) {abandoned : List Event}
    (hb : Balanced ⟨c.courier.buffered e pass (MemoryStore.buffer.write e c.world.store).1, c.intake,
      { c.world with store := (MemoryStore.buffer.write e c.world.store).2 }, c.accepted, abandoned⟩)
    (hk : Keeps (MemoryStore.IsSoundFor limit)
      ⟨c.courier.buffered e pass (MemoryStore.buffer.write e c.world.store).1, c.intake,
        { c.world with store := (MemoryStore.buffer.write e c.world.store).2 }, c.accepted,
        abandoned⟩) :
    Inside limit ⟨c.courier.buffered e pass (MemoryStore.buffer.write e c.world.store).1, c.intake,
      { c.world with store := (MemoryStore.buffer.write e c.world.store).2 }, c.accepted,
      abandoned⟩ := by
  have hfree : c.courier.parked = none := h.balanced.single (by rw [hp]; rfl)
  have honce := h.once
  simp only [Courier.held, hfree, hp, Phase.inHand, Option.toList_none, List.nil_append] at honce
  refine ⟨hb, hk, ?_, ?_⟩
  · intro a
    have hsum := honce a
    rcases MemoryStore.write_cases c.world.store e with ⟨hr, hs⟩ | ⟨f, hr, hf, hs⟩
    · simp only [MemoryStore.buffer, hr, hs, Courier.buffered, (Courier.resume_leaves _ pass).1,
        hfree, Option.toList_none, List.count_append, List.count_nil]
      omega
    · simp only [MemoryStore.buffer, hr, hs, Courier.buffered, if_pos hf,
        (Courier.resume_leaves _ pass).1]
      exact hsum
  · intro hnone hsome
    rcases MemoryStore.write_cases c.world.store e with ⟨hr, hs⟩ | ⟨f, hr, hf, hs⟩
    · -- nothing is parked
      have hleft := hsome
      simp only [MemoryStore.buffer, hr, Courier.buffered] at hleft
      have hresume : ∀ k : Courier, (k.resume pass).parked = k.parked := by
        intro k
        cases pass with
        | none => rfl
        | some n => rfl
      rw [hresume] at hleft
      simp only [hfree, Option.isSome_none, Bool.false_eq_true] at hleft
    · have hfull := MemoryStore.le_length_of_write hr
      have hlimit : c.world.store.limit = limit := h.keeps.store.1
      simp only [MemoryStore.buffer, hs]
      omega

/-- An event goes from the intake to the hand of a courier that has nothing. -/
theorem Inside.collects (h : Inside limit c) {m : Message} {i : Intake} {k : Courier}
    {abandoned : List Event} (hb : Balanced ⟨k, i, c.world, c.accepted, abandoned⟩)
    (hk : Keeps (MemoryStore.IsSoundFor limit) ⟨k, i, c.world, c.accepted, abandoned⟩)
    (hr : c.courier.isReceiving = true) (ht : c.intake.take = some (m, i))
    (hhand : c.courier.phase.inHand = []) (hparked : k.parked = none)
    (hheld : k.held = [m.event]) :
    Inside limit ⟨k, i, c.world, c.accepted, abandoned⟩ := by
  have hfree := Courier.parked_of_isReceiving hr
  refine ⟨hb, hk, ?_, ?_⟩
  · intro a
    have hsum := h.once a
    simp only [Courier.held, hfree, hhand, (Intake.take_eq ht).1, Option.toList_none,
      List.append_nil, List.count_nil, List.map_cons, List.count_cons] at hsum
    simp only [hheld, List.count_cons, List.count_nil]
    omega
  · intro hnone hsome
    rw [hparked] at hsome
    cases hsome

/-- A reading leaves the store as it is, and may take the parked event in hand. -/
theorem Inside.read (h : Inside limit c) {pass : Nat} (hp : c.courier.phase = .reading pass)
    {abandoned : List Event}
    (hb : Balanced ⟨c.courier.gotBatch pass ((C.beside MemoryStore.buffer).read c.world).1, c.intake,
      ((C.beside MemoryStore.buffer).read c.world).2, c.accepted, abandoned⟩)
    (hk : Keeps (MemoryStore.IsSoundFor limit)
      ⟨c.courier.gotBatch pass ((C.beside MemoryStore.buffer).read c.world).1, c.intake,
        ((C.beside MemoryStore.buffer).read c.world).2, c.accepted, abandoned⟩) :
    Inside limit ⟨c.courier.gotBatch pass ((C.beside MemoryStore.buffer).read c.world).1, c.intake,
      ((C.beside MemoryStore.buffer).read c.world).2, c.accepted, abandoned⟩ := by
  have hheld : c.courier.held = c.courier.parked.toList :=
    Courier.held_of_inHand (by rw [hp]; rfl)
  refine h.goesOn hb hk (MemoryStore.nextBatch_cases c.world.store).1 List.prefix_rfl ?_ ?_
  · intro a
    rw [hheld]
    rcases ((C.beside MemoryStore.buffer).read c.world).1 with f | _ | b
    · rw [Courier.gotBatch, (c.courier.endPass_leaves pass).1]
    · rw [Courier.gotBatch, (c.courier.endPass_leaves pass).1]
    · rw [Courier.gotBatch, (c.courier.replay_welcome pass b b.events).1]
  · rcases ((C.beside MemoryStore.buffer).read c.world).1 with f | _ | b
    · exact c.courier.isSome_parked_endPass pass
    · exact c.courier.isSome_parked_endPass pass
    · rw [Courier.gotBatch, Courier.replay_parked]
      exact id

/-- The answer to a publish of the batch leaves the store as it is. -/
theorem Inside.replayed (h : Inside limit c) {pass : Nat} {b : Batch} {e : Event}
    {rest : List Event} {failure : Option Fault}
    (hp : c.courier.phase = .replaying pass b e rest (.done failure)) {abandoned : List Event}
    (hb : Balanced ⟨c.courier.replayed pass b rest failure, c.intake, c.world, c.accepted,
      abandoned⟩)
    (hk : Keeps (MemoryStore.IsSoundFor limit)
      ⟨c.courier.replayed pass b rest failure, c.intake, c.world, c.accepted, abandoned⟩) :
    Inside limit
      ⟨c.courier.replayed pass b rest failure, c.intake, c.world, c.accepted, abandoned⟩ := by
  have hheld : c.courier.held = c.courier.parked.toList :=
    Courier.held_of_inHand (by rw [hp]; rfl)
  refine h.goesOn hb hk rfl List.prefix_rfl (fun a => le_of_eq ?_) ?_
  · rw [hheld]
    cases failure with
    | none => rw [Courier.replayed, (c.courier.replay_welcome pass b rest).1]
    | some f => rw [Courier.replayed, (Courier.endPass_leaves _ pass).1]
  · cases failure with
    | none =>
      rw [Courier.replayed, Courier.replay_parked]
      exact id
    | some f => exact Courier.isSome_parked_endPass _ pass

/-- A batch that is committed has been published. -/
theorem Inside.committed (h : Inside limit c) {pass : Nat} {b : Batch}
    (hp : c.courier.phase = .committing pass b) {abandoned : List Event}
    (hb : Balanced ⟨c.courier.committed pass b (MemoryStore.buffer.commit b c.world.store).1,
      c.intake, { c.world with store := (MemoryStore.buffer.commit b c.world.store).2 }, c.accepted,
      abandoned⟩)
    (hk : Keeps (MemoryStore.IsSoundFor limit)
      ⟨c.courier.committed pass b (MemoryStore.buffer.commit b c.world.store).1, c.intake,
        { c.world with store := (MemoryStore.buffer.commit b c.world.store).2 }, c.accepted,
        abandoned⟩) :
    Inside limit ⟨c.courier.committed pass b (MemoryStore.buffer.commit b c.world.store).1, c.intake,
      { c.world with store := (MemoryStore.buffer.commit b c.world.store).2 }, c.accepted,
      abandoned⟩ := by
  obtain ⟨htoken, hwhole⟩ := h.balanced.whole b (by rw [hp]; rfl)
  refine ⟨hb, hk, ?_, ?_⟩
  · intro a
    have hsum := h.once a
    simp only [Courier.held, hp, Phase.inHand, List.append_nil] at hsum
    simp only [MemoryStore.buffer, htoken, Courier.committed, MemoryStore.commit, hwhole,
      List.drop_length, Courier.held, Phase.inHand, List.append_nil, List.count_nil]
    omega
  · intro hnone _
    have hsound := h.keeps.store
    rw [hp] at hsound
    obtain ⟨e, rest, he⟩ := List.exists_cons_of_ne_nil (hsound.2.2 b rfl)
    have hle := h.count_replayed_le e
    have hpublished : c.world.published = [] := hnone
    rw [hpublished, Course.replayed, hp, Phase.replayed, he, List.count_append, List.count_cons_self,
      List.count_nil] at hle
    omega

theorem Inside.call (h : Inside limit c) (hlimit : 0 < limit) :
    Inside limit (c.call C MemoryStore.buffer) := by
  have hb : Balanced (c.call C MemoryStore.buffer) := h.balanced.step .call
  have hk : Keeps (MemoryStore.IsSoundFor limit) (c.call C MemoryStore.buffer) :=
    h.keeps.step (MemoryStore.drains hlimit) .call
  obtain ⟨k, j, w, ht, hcall⟩ := c.call_turn C MemoryStore.buffer
  rw [hcall] at hb hk ⊢
  cases ht with
  | rests hp => exact h.goesOn hb hk rfl List.prefix_rfl (fun _ => Nat.le_refl _) id
  | delivered e failure hp =>
    refine h.goesOn hb hk rfl List.prefix_rfl (fun a => le_of_eq ?_) ?_
    · cases failure with
      | none => simp [Courier.held, Courier.delivered, hp, Phase.inHand, Delivery.isPublished]
      | some f => simp [Courier.held, Courier.delivered, hp, Phase.inHand, Delivery.isPublished]
    · cases failure with
      | none => exact id
      | some f => exact id
  | delivers e d hp hd =>
    obtain ⟨hstore, hpublished⟩ :=
      Link.step_beside C MemoryStore.buffer c.courier.link e c.world hd
    refine h.goesOn hb hk (congrArg MemoryStore.events hstore) ?_ ?_ id
    · rw [hpublished]
      exact List.prefix_append _ _
    · intro a
      simp only [Courier.held, hp, Phase.inHand, Delivery.isPublished_of_result? hd]
      split
      · simp
      · exact Nat.le_refl _
  | buffered e pass hp => exact h.buffered hp hb hk
  | collects pass m _ hp hr ht =>
    have hfree := Courier.parked_of_isReceiving hr
    refine h.collects hb hk hr ht ?_ hfree ?_
    · rw [hp]
      rfl
    · rw [Courier.held, hfree]
      rfl
  | collected pass c' hp hc hr =>
    have hsame : c'.parked = c.courier.parked := by
      rcases hc with rfl | rfl
      · rfl
      · rfl
    refine h.goesOn hb hk rfl List.prefix_rfl (fun a => ?_) ?_
    · simp [Courier.held, hp, hsame, Phase.inHand]
    · simp only [hsame]
      exact id
  | read pass hp => exact h.read hp hb hk
  | replayed pass b e rest failure hp => exact h.replayed hp hb hk
  | replays pass b e rest d hp hd =>
    obtain ⟨hstore, hpublished⟩ :=
      Link.step_beside C MemoryStore.buffer c.courier.link e c.world hd
    refine h.goesOn hb hk (congrArg MemoryStore.events hstore) ?_ ?_ id
    · rw [hpublished]
      exact List.prefix_append _ _
    · intro a
      simp [Courier.held, hp, Phase.inHand]
  | committed pass b hp => exact h.committed hp hb hk
  | refreshed hp =>
    refine h.goesOn hb hk rfl List.prefix_rfl (fun a => ?_) id
    simp [Courier.held, hp, Phase.inHand]

theorem Inside.step (h : Inside limit c) (hlimit : 0 < limit)
    (hs : Step C MemoryStore.buffer c d) : Inside limit d := by
  have hb := h.balanced.step hs
  have hk := h.keeps.step (MemoryStore.drains hlimit) hs
  have honce := h.once
  cases hs with
  | call => exact h.call hlimit
  | pass hp =>
    refine h.goesOn hb hk rfl List.prefix_rfl (fun a => ?_) id
    simp [Courier.held, Courier.beginPass, hp, Phase.inHand]
  | refresh hp =>
    refine h.goesOn hb hk rfl List.prefix_rfl (fun a => ?_) id
    simp [Courier.held, Courier.beginRefresh, hp, Phase.inHand]
  | exhausted hp hr ht hx =>
    exact h.goesOn hb hk rfl List.prefix_rfl (fun _ => Nat.le_refl _) id
  | receive m i hp hr ht =>
    have hfree := Courier.parked_of_isReceiving hr
    refine h.collects hb hk hr ht ?_ hfree ?_
    · rw [hp]
      rfl
    · rw [Courier.held, Courier.receive, hfree]
      rfl
  | submit m =>
    refine ⟨hb, hk, ?_, h.full⟩
    intro a
    have hsum := honce a
    -- a submission is accepted at once if there is room
    by_cases hroom : c.intake.hasRoom = true
    · simp only [Intake.submit, hroom, if_true, List.map_append, List.map_cons, List.map_nil,
        List.count_append]
      omega
    · simpa [Intake.submit, hroom] using hsum
  | enter m hm =>
    refine ⟨hb, hk, ?_, h.full⟩
    intro a
    have hsum := honce a
    simp only [Intake.enter, List.map_append, List.map_cons, List.map_nil, List.count_append]
    omega
  | leave | giveBack | producers | broker => exact ⟨hb, hk, h.once, h.full⟩

theorem Inside.reaches (h : Inside limit c) (hlimit : 0 < limit)
    (hr : Reaches C MemoryStore.buffer c d) : Inside limit d := by
  induction hr with
  | refl => exact h
  | tail _ hs ih => exact ih.step hlimit hs

theorem inside_start (maxAge : Nat) {counters : RelayCounters}
    (hgauge : counters.backpressure = false) (i : Intake) (broker : β) {m : MemoryStore}
    (hm : m.events = []) : Inside m.limit (start maxAge counters i broker m) := by
  have hsound : MemoryStore.IsSoundFor m.limit none m := by
    refine ⟨rfl, ?_, fun q hq => by cases hq⟩
    rw [hm]
    exact Nat.zero_le _
  refine ⟨balanced_start maxAge counters i broker hm, keeps_start maxAge hgauge i broker hsound,
    ?_, ?_⟩
  · intro a
    simp [start, Courier.create, Courier.held, Phase.inHand, hm]
  · intro _ hsome
    cases hsome

/-- The events inside are no more than the store and the intake can hold, and one. -/
theorem Inside.length_le (h : Inside limit c) (hi : c.intake.IsBounded) :
    c.world.store.events.length + c.intake.queue.length + c.courier.held.length ≤
      limit + c.intake.capacity + 1 := by
  have hstored : c.world.store.events.length ≤ limit := h.keeps.store.2.1
  have hheld := h.balanced.length_held_le
  have hqueue : c.intake.queue.length + c.intake.granted.length ≤ c.intake.capacity := hi
  omega

/-- As long as nothing has been published, what was accepted is inside. -/
theorem Inside.length_accepted (h : Inside limit c) (hnone : c.world.published = []) :
    c.accepted.length =
      c.world.store.events.length + c.intake.queue.length + c.courier.held.length := by
  have hperm : c.accepted.Perm
      (c.world.store.events ++ c.courier.held ++ c.intake.queue.map Message.event) := by
    rw [List.perm_iff_count]
    intro a
    have hplaces := h.balanced.places a
    have honce := h.once a
    rw [hnone, List.count_nil] at hplaces
    rw [List.count_append, List.count_append]
    omega
  have hlength := hperm.length_eq
  rw [List.length_append, List.length_append, List.length_map] at hlength
  omega

end Course

/-! ## Quiet -/

/-- Nothing happens until time passes or an event is handed in: the courier is free and has nothing to
take up, and no producer has a place that it could fill. -/
structure Course.IsQuiet (c : Course β σ) : Prop where
  idle : c.courier.phase = .idle
  nothing : c.courier.isReceiving = true → c.intake.queue = []
  filled : c.intake.granted = []

/-- A free relay that takes up nothing is quiet, once the producers have filled their places. -/
theorem Relay.isQuiet_of_select {r : Relay} {i : Intake} {now : Nat}
    (hp : r.courier.phase = .idle) (hnone : r.select i now = none) (hg : i.granted = [])
    (w : Outside β σ) (accepted abandoned : List Event) :
    Course.IsQuiet ⟨r.courier, i, w, accepted, abandoned⟩ := by
  refine ⟨hp, ?_, hg⟩
  intro hr
  have hr : r.courier.isReceiving = true := hr
  simp only [select, hr, if_true] at hnone
  cases hq : i.queue with
  | nil => rfl
  | cons m queue =>
    -- the next event would have been received
    simp only [Intake.take, hq] at hnone
    split at hnone
    · cases hnone
    · split at hnone
      · cases hnone
      · cases hnone

namespace Course

variable {limit : Nat} {c : Course β MemoryStore}

/-- A quiet relay that has published nothing, and at which more events are waiting or inside than fit,
has as many inside as fit. -/
theorem Inside.length_accepted_of_quiet (h : Inside limit c) (hi : c.intake.IsBounded)
    (hplace : 0 < c.intake.capacity) (hpacked : c.intake.IsPacked) (hlistens : c.Listens)
    (hnone : c.world.published = []) (hq : c.IsQuiet)
    (hmore : limit + c.intake.capacity + 1 < c.sent.length) :
    c.accepted.length = limit + c.intake.capacity + 1 := by
  have haccepted := h.length_accepted hnone
  have hle := h.length_le hi
  rw [sent, hq.filled, List.nil_append, List.length_append, List.length_map] at hmore
  -- somebody waits, so all places are taken
  have hwaiting : c.intake.waiting ≠ [] := by
    intro hnil
    rw [hnil, List.length_nil] at hmore
    omega
  have hfull := hpacked hwaiting
  rw [hq.filled, List.length_nil] at hfull
  have hqueue : c.intake.queue ≠ [] := by
    intro hnil
    rw [hnil, List.length_nil] at hfull
    omega
  -- and the courier does not receive, so an event is parked
  have hopen : c.courier.intakeOpen = true := by
    cases hopen : c.courier.intakeOpen with
    | true => rfl
    | false => exact absurd (Intake.isExhausted_iff.mp (hlistens hopen)).2.2.1 hwaiting
  have hparked : c.courier.parked.isSome = true := by
    cases hparked : c.courier.parked with
    | some e => rfl
    | none =>
      refine absurd (hq.nothing ?_) hqueue
      rw [Courier.isReceiving, hopen, hparked]
      rfl
  have hstored := h.full hnone hparked
  have hheld : c.courier.held.length = 1 := by
    obtain ⟨e, he⟩ := Option.isSome_iff_exists.mp hparked
    rw [Courier.held, hq.idle, he]
    rfl
  omega

end Course

/-! ## Admission -/

theorem Intake.create_eq {capacity producers : Nat} {i : Intake}
    (h : Intake.create capacity producers = .ok i) :
    i = ⟨max capacity 1, [], [], [], producers, false⟩ := by
  unfold Intake.create at h
  split at h
  · cases h
  · exact (Except.ok.inj h).symm

/-- A relay over an empty store in memory, whatever the broker does and in whatever order events are
handed in and passes are due. At any time the gauge is up exactly if an event is parked; a parked event
stays parked until the courier takes it in hand again, and as long as it is parked nothing is taken out
of the intake; and there are no more events in the store, in the intake and with the courier than the
store and the intake can hold, and one. If all publishes have failed, nothing can happen by itself and
more submissions have begun than that, none of which was abandoned, then exactly as many have come to
their end, and the others wait. -/
theorem backpressure_exact (C : Connector β) (maxAge : Nat) {counters : RelayCounters}
    (hgauge : counters.backpressure = false) {capacity producers : Nat} {i : Intake}
    (hi : Intake.create capacity producers = .ok i) (broker : β) {m : MemoryStore}
    (hm : m.events = []) (hlimit : 0 < m.limit) :
    (∀ c : Course β MemoryStore,
      Course.Reaches C MemoryStore.buffer (.start maxAge counters i broker m) c →
      c.courier.counters.backpressure = c.courier.parked.isSome ∧
      (∀ e d, c.courier.parked = some e → Course.Step C MemoryStore.buffer c d →
        (d.courier.parked = some e ∨
          (d.courier.parked = none ∧ d.courier.phase.inHand = [e])) ∧
        c.intake.queue <+: d.intake.queue) ∧
      c.world.store.events.length + c.intake.queue.length + c.courier.held.length ≤
        m.limit + max capacity 1 + 1) ∧
    (∀ (c : Course β MemoryStore) (started : List Message),
      Course.Submits C MemoryStore.buffer (.start maxAge counters i broker m) c started [] →
      c.world.published = [] → c.IsQuiet → m.limit + max capacity 1 + 1 < started.length →
      c.accepted.length = m.limit + max capacity 1 + 1 ∧
      (started.map Message.event).Perm (c.accepted ++ c.intake.waiting.map Message.event)) := by
  obtain rfl := Intake.create_eq hi
  have hstart := Course.inside_start maxAge hgauge
    ⟨max capacity 1, [], [], [], producers, false⟩ broker hm
  have hroom : Intake.IsBounded ⟨max capacity 1, [], [], [], producers, false⟩ := Nat.zero_le _
  constructor
  · intro c hr
    have hinside := hstart.reaches hlimit hr
    obtain ⟨hbounded, hcapacity⟩ := hr.bounded hroom
    refine ⟨hinside.keeps.told, ?_, ?_⟩
    · intro e d he hs
      refine ⟨hs.parked hinside.balanced.single he, hs.change.queue_prefix ?_⟩
      rw [Courier.isReceiving, he]
      exact Bool.and_false _
    · have hle := hinside.length_le hbounded
      rw [hcapacity] at hle
      exact hle
  · intro c started h hnone hq hmore
    have hr := h.reaches
    have hinside := hstart.reaches hlimit hr
    obtain ⟨hbounded, hcapacity⟩ := hr.bounded hroom
    have hcapacity : c.intake.capacity = max capacity 1 := hcapacity
    have hpacked : c.intake.IsPacked := hr.packed fun hne => absurd rfl hne
    have hlistens : c.Listens := h.listens fun hclosed => by cases hclosed
    have hperm := h.partition rfl
    rw [List.map_nil, List.append_nil] at hperm
    have hlength := hperm.length_eq
    rw [List.length_map] at hlength
    constructor
    · rw [← hcapacity]
      refine hinside.length_accepted_of_quiet hbounded ?_ hpacked hlistens hnone hq ?_
      · omega
      · omega
    · rw [Course.sent, hq.filled, List.nil_append] at hperm
      exact hperm

namespace Course

/-- A relay over a store for one event, with one place in the intake, and a broker that takes none. -/
def narrow : Course Nat MemoryStore :=
  start 300 .zero ⟨1, [], [], [], 1, false⟩ 0 ⟨1, [], .zero false⟩

/-- An event is handed in. -/
def handIn (c : Course Nat MemoryStore) (m : Message) : Course Nat MemoryStore :=
  { c with
    intake := c.intake.submit m
    accepted := c.accepted ++ if c.intake.hasRoom then [m.event] else [] }

/-- Four events are handed in. The first is stored, the second parked, and the third is in the
intake. -/
def blocked : Course Nat MemoryStore :=
  handIn (handIn (bufferNext (handIn (bufferNext (handIn narrow ⟨0, .new "a"⟩)) ⟨1, .new "b"⟩))
    ⟨2, .new "c"⟩) ⟨3, .new "d"⟩

theorem submits_blocked :
    Submits quotaConnector MemoryStore.buffer narrow blocked
      [⟨0, .new "a"⟩, ⟨1, .new "b"⟩, ⟨2, .new "c"⟩, ⟨3, .new "d"⟩] [] := by
  have hfirst : Submits quotaConnector MemoryStore.buffer narrow
      (bufferNext (handIn narrow ⟨0, .new "a"⟩)) [⟨0, .new "a"⟩] [] :=
    ((Submits.refl.submit ⟨0, .new "a"⟩ (by decide)).receive rfl rfl rfl).calls 6
  have hsecond : Submits quotaConnector MemoryStore.buffer narrow
      (bufferNext (handIn (bufferNext (handIn narrow ⟨0, .new "a"⟩)) ⟨1, .new "b"⟩))
      [⟨0, .new "a"⟩, ⟨1, .new "b"⟩] [] :=
    ((hfirst.submit ⟨1, .new "b"⟩ (by decide)).receive (by decide) (by decide) rfl).calls 6
  exact (hsecond.submit ⟨2, .new "c"⟩ (by decide)).submit ⟨3, .new "d"⟩ (by decide)

end Course

/-- Three submissions come to their end, and the fourth waits. -/
theorem backpressure_exact_blocked :
    Course.blocked.courier.parked = some (.new "b") ∧
    Course.blocked.courier.counters.backpressure = true ∧
    Course.blocked.world.store.events = [.new "a"] ∧
    Course.blocked.accepted.length = 3 ∧
    Course.blocked.intake.waiting = [⟨3, .new "d"⟩] := by
  have hgauge : RelayCounters.zero.backpressure = false := rfl
  have hcreate : Intake.create 0 1 = .ok ⟨1, [], [], [], 1, false⟩ := rfl
  have hempty : (⟨1, [], .zero false⟩ : MemoryStore).events = [] := rfl
  have hexact := backpressure_exact quotaConnector 300 hgauge hcreate 0 hempty (by decide)
  have hparked : Course.blocked.courier.parked = some (.new "b") := by decide
  have htold := (hexact.1 Course.blocked Course.submits_blocked.reaches).1
  have hthree := (hexact.2 Course.blocked _ Course.submits_blocked (by decide)
    ⟨by decide, by decide, by decide⟩ (by decide)).1
  refine ⟨hparked, ?_, by decide, hthree, by decide⟩
  rw [htold, hparked]
  rfl

end AuditRelay
