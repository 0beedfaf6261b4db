import AuditRelay.Proofs.Relay.Dropped
import AuditRelay.Proofs.Relay.Shutdown

/-!
# AuditRelay.Proofs.Relay.Cancelled — a relay that is broken off

A relay may be told to stop while it waits for the answer to a call (`Course.breakOff`): the courier
goes on to nothing, and what it had in hand is gone. A store in memory of its own loses nothing by it:
whatever a write has brought into the store is there or published (`broken_off_relay_keeps_written`).

* `Course.Backed` is the invariant: of the batch in progress the store still has everything, and what
  has been published of it is published.
* `Course.Underway` finds the reading of the batch in progress, since which its events have been
  published one after the other. A batch comes to its commit in no other way.
-/

namespace AuditRelay

variable {β σ : Type}

namespace Course

/-! ## Once it has stopped -/

variable {C : Connector β} {B : Buffer σ} {c d : Course β σ}

/-- A relay that has stopped touches nothing any more. -/
theorem Step.of_stopped (hs : Step C B c d) (h : c.courier.phase = .stopped) :
    d.courier.phase = .stopped ∧ d.world.store = c.world.store ∧
    d.world.published = c.world.published := by
  have hbusy : c.courier.phase ≠ .idle := by
    rw [h]
    exact Phase.noConfusion
  cases hs with
  | call =>
    have hcall : c.courier.step (C.beside B) c.intake c.world = (c.courier, c.intake, c.world) := by
      rw [Courier.step, h]
    refine ⟨?_, ?_, ?_⟩
    · rw [Course.call, hcall]
      exact h
    · rw [Course.call, hcall]
    · rw [Course.call, hcall]
  | pass hp => exact absurd hp hbusy
  | refresh hp => exact absurd hp hbusy
  | receive m i hp hr ht => exact absurd hp hbusy
  | exhausted hp hr ht hx => exact absurd hp hbusy
  | submit | enter | leave | giveBack | producers | broker => exact ⟨h, rfl, rfl⟩

theorem Reaches.of_stopped (hr : Reaches C B c d) (h : c.courier.phase = .stopped) :
    d.courier.phase = .stopped ∧ d.world.store = c.world.store ∧
    d.world.published = c.world.published := by
  induction hr with
  | refl => exact ⟨h, rfl, rfl⟩
  | tail _ hs ih =>
    obtain ⟨hphase, hstore, hpublished⟩ := ih
    obtain ⟨hphase', hstore', hpublished'⟩ := hs.of_stopped hphase
    exact ⟨hphase', hstore'.trans hstore, hpublished'.trans hpublished⟩

/-! ## What has been published of a batch -/

/-- The batch in progress was read at `r`, in a run from `s`. Since then nothing has been published
but its first events, and all but those that are left. -/
structure ReadAt (C : Connector β) (B : Buffer σ) (s r c : Course β σ) (b : Batch) : Prop where
  before : Reaches C B s r
  reading : ∃ pass, r.courier.phase = .reading pass
  answer : (B.read r.world.store).1 = .ok (some b)
  since : Reaches C B (r.call C B) c
  published : c.world.published = r.world.published ++ c.courier.phase.replayed
  tail : ∃ done, b.events = done ++ c.courier.phase.ahead

/-- Every batch in progress has been read. -/
def Underway (C : Connector β) (B : Buffer σ) (s c : Course β σ) : Prop :=
  ∀ b, c.courier.phase.batch? = some b → ∃ r, ReadAt C B s r c b

/-- The courier is at the same batch as before, or at none. -/
theorem Underway.stays {s : Course β σ} (h : Underway C B s c) (hs : Step C B c d)
    (hphase : d.courier.phase.batch? = none ∨ d.courier.phase = c.courier.phase)
    (hpublished : d.world.published = c.world.published) : Underway C B s d := by
  intro b hb
  rcases hphase with hnone | hsame
  · exact absurd (hnone.symm.trans hb) (Option.some_ne_none b).symm
  · rw [hsame] at hb
    obtain ⟨r, hr⟩ := h b hb
    refine ⟨r, hr.before, hr.reading, hr.answer, hr.since.tail hs, ?_, ?_⟩
    · rw [hpublished, hsame]
      exact hr.published
    · rw [hsame]
      exact hr.tail

/-- The courier goes on with the same batch. -/
theorem ReadAt.goesOn {s r : Course β σ} {b : Batch} (h : ReadAt C B s r c b) (hs : Step C B c d)
    (hpublished : d.world.published = r.world.published ++ d.courier.phase.replayed)
    (htail : ∃ done, b.events = done ++ d.courier.phase.ahead) : ReadAt C B s r d b :=
  ⟨h.before, h.reading, h.answer, h.since.tail hs, hpublished, htail⟩

/-- A batch begins when it is read, and nothing of it has been published. -/
theorem underway_read {s : Course β σ} (hr : Reaches C B s c) {pass : Nat}
    (hp : c.courier.phase = .reading pass) (hcall : c.call C B = d)
    (hcourier : d.courier = c.courier.gotBatch pass (B.read c.world.store).1)
    (hpublished : d.world.published = c.world.published) : Underway C B s d := by
  intro b hb
  rw [hcourier, Courier.batch?_gotBatch] at hb
  have hanswer : (B.read c.world.store).1 = .ok (some b) := by
    cases ha : (B.read c.world.store).1 with
    | error f =>
      rw [ha] at hb
      exact absurd hb (Option.some_ne_none b).symm
    | ok found =>
      rw [ha, Batch.brought] at hb
      rw [hb]
  obtain ⟨-, hreplayed, hahead, -⟩ :=
    c.courier.replay_leaves pass b (List.nil_append b.events).symm
  have hreplay : d.courier = c.courier.replay pass b b.events := by
    rw [hcourier, hanswer, Courier.gotBatch]
  refine ⟨c, hr, ⟨pass, hp⟩, hanswer, ?_, ?_, ?_⟩
  · rw [hcall]
  · rw [hreplay, hreplayed, List.append_nil, hpublished]
  · refine ⟨[], ?_⟩
    rw [hreplay, hahead, List.nil_append]

/-- One more event of the batch has been published. -/
theorem Underway.replayed {s : Course β σ} (h : Underway C B s c) {pass : Nat} {b : Batch}
    {e : Event} {rest : List Event}
    (hp : c.courier.phase = .replaying pass b e rest (.done none)) (hs : Step C B c d)
    (hcourier : d.courier = c.courier.replay pass b rest)
    (hpublished : d.world.published = c.world.published) : Underway C B s d := by
  intro b' hb
  rw [hcourier, Courier.batch?_replay] at hb
  obtain rfl : b = b' := Option.some.inj hb
  obtain ⟨r, hread⟩ := h b (by rw [hp]; rfl)
  obtain ⟨done, hdone⟩ := hread.tail
  rw [hp, Phase.ahead, List.append_cons] at hdone
  obtain ⟨-, hreplayed, hahead, -⟩ := c.courier.replay_leaves pass b hdone
  have hbefore := hread.published
  rw [hp] at hbefore
  refine ⟨r, hread.goesOn hs ?_ ⟨done ++ [e], ?_⟩⟩
  · rw [hcourier, hreplayed, hpublished, hbefore, Phase.replayed, Delivery.isPublished, if_pos rfl,
      b.before_append hdone]
  · rw [hcourier, hahead]
    exact hdone

/-- The delivery of an event of the batch goes on. -/
theorem Underway.replays {s : Course β σ} (h : Underway C B s c) {pass : Nat} {b : Batch}
    {e : Event} {rest : List Event} {way : Delivery}
    (hp : c.courier.phase = .replaying pass b e rest way) (hway : way.result? = none)
    (hs : Step C B c d)
    (hphase : d.courier.phase = .replaying pass b e rest
      (c.courier.link.step (C.beside B).toConnector e c.world way).1)
    (hworld : d.world = (c.courier.link.step (C.beside B).toConnector e c.world way).2.2) :
    Underway C B s d := by
  intro b' hb
  rw [hphase] at hb
  obtain rfl : b = b' := Option.some.inj hb
  obtain ⟨r, hread⟩ := h b (by rw [hp]; rfl)
  obtain ⟨done, hdone⟩ := hread.tail
  have hbefore := hread.published
  rw [hp, Phase.ahead] at hdone
  rw [hp, Phase.replayed, Delivery.isPublished_of_result? hway, if_neg Bool.noConfusion,
    b.before_append hdone] at hbefore
  have hdone' := hdone.trans (List.append_cons done e rest)
  obtain ⟨-, hw⟩ := Link.step_beside C B c.courier.link e c.world hway
  refine ⟨r, hread.goesOn hs ?_ ⟨done, ?_⟩⟩
  · rw [hphase, hworld, hw, hbefore, Phase.replayed]
    split
    · rw [b.before_append hdone', List.append_assoc]
    · rw [b.before_append hdone, List.append_nil]
  · rw [hphase]
    exact hdone

theorem Underway.call {s : Course β σ} (h : Underway C B s c) (hr : Reaches C B s c) :
    Underway C B s (c.call C B) := by
  have hstep : Step C B c (c.call C B) := .call
  obtain ⟨k, j, w, ht, hcall⟩ := c.call_turn C B
  rw [hcall] at hstep ⊢
  cases ht with
  | rests hp => exact h.stays hstep (.inr rfl) rfl
  | delivered e failure hp =>
    refine h.stays hstep (.inl ?_) rfl
    cases failure with
    | none => rfl
    | some f => rfl
  | delivers e d hp hd =>
    intro b hb
    exact absurd hb (Option.some_ne_none b).symm
  | buffered e pass hp => exact h.stays hstep (.inl (by simp)) rfl
  | collects pass m j hp hr ht => exact h.stays hstep (.inl rfl) rfl
  | collected pass c' hp hc hr => exact h.stays hstep (.inl rfl) rfl
  | read pass hp => exact underway_read hr hp hcall rfl rfl
  | replayed pass b e rest failure hp =>
    cases failure with
    | none => exact h.replayed hp hstep rfl rfl
    | some f => exact h.stays hstep (.inl (by simp [Courier.replayed])) rfl
  | replays pass b e rest d hp hd => exact h.replays hp hd hstep rfl rfl
  | committed pass b hp => exact h.stays hstep (.inl (by simp)) rfl
  | refreshed hp => exact h.stays hstep (.inl rfl) rfl

theorem Underway.step {s : Course β σ} (h : Underway C B s c) (hr : Reaches C B s c)
    (hs : Step C B c d) : Underway C B s d := by
  have hstep := hs
  cases hs with
  | call => exact h.call hr
  | pass hp => exact h.stays hstep (.inl rfl) rfl
  | refresh hp => exact h.stays hstep (.inl rfl) rfl
  | receive m i hp hr ht => exact h.stays hstep (.inl rfl) rfl
  | exhausted | submit | enter | leave | giveBack | producers | broker =>
    exact h.stays hstep (.inr rfl) rfl

theorem Underway.reaches {s : Course β σ} (h : Underway C B s s) (hr : Reaches C B s c) :
    Underway C B s c := by
  induction hr with
  | refl => exact h
  | tail hr hs ih => exact ih.step hr hs

/-! ## What the store has had -/

/-- A relay over a store in memory that began with the events `first`. What has been written is
stored or published, and what has been published of the batch in progress is both. -/
structure Backed (first : List Event) (c : Course β (Recorded MemoryStore)) : Prop where
  /-- The batch in progress is the whole store. -/
  whole : ∀ b, c.courier.phase.batch? = some b →
    b.token = .oldest b.events.length ∧ c.world.store.store.events = b.events
  /-- The events that are left of a batch are its last ones. -/
  tail : ∀ b, c.courier.phase.batch? = some b → ∃ done, b.events = done ++ c.courier.phase.ahead
  backed : ∀ a, first.count a + c.world.store.written.count a + c.courier.phase.replayed.count a ≤
    c.world.store.store.events.count a + c.world.published.count a

end Course

/-! ## Every call keeps it -/

namespace Course

variable {C : Connector β} {first : List Event} {c d : Course β (Recorded MemoryStore)}

/-- The courier leaves its batch, or has none, and the store has its events. -/
theorem Backed.leaves (h : Backed first c) {k : Courier} {j : Intake}
    {w : Outside β (Recorded MemoryStore)} {accepted abandoned : List Event}
    (hbatch : k.phase.batch? = none) (hreplayed : k.phase.replayed = [])
    (hwritten : w.store.written = c.world.store.written)
    (hevents : w.store.store.events = c.world.store.store.events)
    (hpublished : c.world.published <+: w.published) :
    Backed first ⟨k, j, w, accepted, abandoned⟩ := by
  constructor
  · intro b hb
    exact absurd (hbatch.symm.trans hb) (Option.some_ne_none b).symm
  · intro b hb
    exact absurd (hbatch.symm.trans hb) (Option.some_ne_none b).symm
  · intro a
    have hle := h.backed a
    have hmore := hpublished.sublist.count_le a
    simp only [hreplayed, hwritten, hevents, List.count_nil]
    omega

/-- A write brings its event into the store, or leaves the store alone. -/
theorem Backed.buffered (h : Backed first c) {e : Event} {pass : Option Nat}
    (hp : c.courier.phase = .buffering e pass) {j : Intake} {accepted abandoned : List Event} :
    Backed first ⟨c.courier.buffered e pass (MemoryStore.buffer.recorded.write e c.world.store).1, j,
      { c.world with store := (MemoryStore.buffer.recorded.write e c.world.store).2 },
      accepted, abandoned⟩ := by
  have hnone : (Phase.buffering e pass).replayed = [] := rfl
  have hbacked := h.backed
  rw [hp, hnone] at hbacked
  rcases MemoryStore.write_cases c.world.store.store e with ⟨hr, hs⟩ | ⟨f, hr, hf, hs⟩
  · constructor
    · simp
    · simp
    · intro a
      have hle := hbacked a
      have hreplayed : ∀ k : Courier, (k.resume pass).phase.replayed = [] :=
        fun k => (k.resume_leaves pass).2.1
      simp only [Buffer.recorded, MemoryStore.buffer, hr, hs, Courier.buffered, Recorded.note,
        hreplayed, List.count_append, List.count_nil] at hle ⊢
      omega
  · refine h.leaves (Courier.batch?_buffered _ _ _ _) ?_ ?_ ?_ List.prefix_rfl
    · simp only [Buffer.recorded, MemoryStore.buffer, hr, Courier.buffered, if_pos hf]
      exact (Courier.resume_leaves _ pass).2.1
    · simp only [Buffer.recorded, MemoryStore.buffer, hr, Recorded.note, if_pos hf]
    · simp only [Buffer.recorded, MemoryStore.buffer, hr, Recorded.note, if_pos hf]
      exact hs

/-- The courier turns to a batch that is the whole store, of which all but `rest` is published. -/
theorem Backed.replay (h : Backed first c) {b : Batch} {done rest : List Event}
    (hb : b.events = done ++ rest) (htoken : b.token = .oldest b.events.length)
    (hdone : done = c.courier.phase.replayed) (pass : Nat) {j : Intake}
    {w : Outside β (Recorded MemoryStore)} {accepted abandoned : List Event}
    (hwritten : w.store.written = c.world.store.written)
    (hevents : w.store.store.events = c.world.store.store.events)
    (hwhole : c.world.store.store.events = b.events)
    (hpublished : w.published = c.world.published) :
    Backed first ⟨c.courier.replay pass b rest, j, w, accepted, abandoned⟩ := by
  obtain ⟨-, hreplayed, hahead, -⟩ := c.courier.replay_leaves pass b hb
  constructor
  · intro b' hb'
    rw [Courier.batch?_replay] at hb'
    obtain rfl := Option.some.inj hb'
    exact ⟨htoken, hevents.trans hwhole⟩
  · intro b' hb'
    rw [Courier.batch?_replay] at hb'
    obtain rfl := Option.some.inj hb'
    exact ⟨done, by rw [hahead]; exact hb⟩
  · simp only [hreplayed, hdone, hwritten, hevents, hpublished]
    exact h.backed

/-- The delivery of an event of the batch goes on; if it has been published, it is still stored. -/
theorem Backed.replays (h : Backed first c) {pass : Nat} {b : Batch} {e : Event}
    {rest : List Event} {way next : Delivery}
    (hp : c.courier.phase = .replaying pass b e rest way) (hway : way.result? = none) {k : Courier}
    (hk : k.phase = .replaying pass b e rest next) {j : Intake}
    {w : Outside β (Recorded MemoryStore)} {accepted abandoned : List Event}
    (hstore : w.store = c.world.store)
    (hpublished : w.published = c.world.published ++ if next.isPublished then [e] else []) :
    Backed first ⟨k, j, w, accepted, abandoned⟩ := by
  obtain ⟨done, hdone⟩ := h.tail b (by rw [hp]; rfl)
  obtain ⟨htoken, hwhole⟩ := h.whole b (by rw [hp]; rfl)
  rw [hp, Phase.ahead] at hdone
  have hdone' := hdone.trans (List.append_cons done e rest)
  have hbacked := h.backed
  rw [hp, Phase.replayed, Delivery.isPublished_of_result? hway, if_neg Bool.noConfusion,
    b.before_append hdone] at hbacked
  have hsame : ∀ b', k.phase.batch? = some b' → b = b' := by
    intro b' hb'
    rw [hk] at hb'
    exact Option.some.inj hb'
  constructor
  · intro b' hb'
    obtain rfl := hsame b' hb'
    rw [hstore]
    exact ⟨htoken, hwhole⟩
  · intro b' hb'
    obtain rfl := hsame b' hb'
    refine ⟨done, ?_⟩
    rw [hk]
    exact hdone
  · intro a
    have hle := hbacked a
    simp only [hk, hstore, hpublished, Phase.replayed]
    split
    · rw [b.before_append hdone', List.count_append, List.count_append]
      omega
    · rw [b.before_append hdone, List.append_nil]
      exact hle

/-- The batch is the whole store, and all of it has been published when it is committed. -/
theorem Backed.committed (h : Backed first c) {pass : Nat} {b : Batch}
    (hp : c.courier.phase = .committing pass b) {j : Intake} {accepted abandoned : List Event} :
    Backed first ⟨c.courier.committed pass b (MemoryStore.buffer.recorded.commit b c.world.store).1, j,
      { c.world with store := (MemoryStore.buffer.recorded.commit b c.world.store).2 },
      accepted, abandoned⟩ := by
  obtain ⟨htoken, hwhole⟩ := h.whole b (by rw [hp]; rfl)
  have hbacked := h.backed
  rw [hp, hwhole] at hbacked
  constructor
  · simp
  · simp
  · intro a
    have hle := hbacked a
    simp only [Buffer.recorded, MemoryStore.buffer, htoken, Courier.committed, MemoryStore.commit,
      hwhole, List.drop_length, Phase.replayed, List.count_nil] at hle ⊢
    omega

theorem Backed.turn (h : Backed first c) {k : Courier} {j : Intake}
    {w : Outside β (Recorded MemoryStore)} {accepted abandoned : List Event}
    (ht : Courier.Turn (C.beside MemoryStore.buffer.recorded) c.courier c.intake c.world k j w) :
    Backed first ⟨k, j, w, accepted, abandoned⟩ := by
  cases ht with
  | rests hp => exact ⟨h.whole, h.tail, h.backed⟩
  | delivered e failure hp =>
    cases failure with
    | none => exact h.leaves rfl rfl rfl rfl List.prefix_rfl
    | some f => exact h.leaves rfl rfl rfl rfl List.prefix_rfl
  | delivers e d hp hd =>
    obtain ⟨hstore, hpublished⟩ :=
      Link.step_beside C MemoryStore.buffer.recorded c.courier.link e c.world hd
    refine h.leaves rfl rfl ?_ ?_ ?_
    · rw [hstore]
    · rw [hstore]
    · rw [hpublished]
      exact List.prefix_append _ _
  | buffered e pass hp => exact h.buffered hp
  | collects pass m j hp hr ht => exact h.leaves rfl rfl rfl rfl List.prefix_rfl
  | collected pass c' hp hc hr => exact h.leaves rfl rfl rfl rfl List.prefix_rfl
  | read pass hp =>
    obtain ⟨hevents, hread⟩ := MemoryStore.nextBatch_cases c.world.store.store
    rcases hread with hnone | hsome
    · simp only [Connector.beside, Buffer.recorded, MemoryStore.buffer, hnone, Courier.gotBatch]
      exact h.leaves (by simp) (Courier.endPass_leaves _ pass).2.1 rfl hevents List.prefix_rfl
    · simp only [Connector.beside, Buffer.recorded, MemoryStore.buffer, hsome, Courier.gotBatch]
      have hnone : [] = c.courier.phase.replayed := by
        rw [hp]
        rfl
      exact h.replay (List.nil_append _).symm rfl hnone pass rfl hevents rfl rfl
  | replayed pass b e rest failure hp =>
    cases failure with
    | none =>
      obtain ⟨done, hdone⟩ := h.tail b (by rw [hp]; rfl)
      obtain ⟨htoken, hwhole⟩ := h.whole b (by rw [hp]; rfl)
      rw [hp, Phase.ahead, List.append_cons] at hdone
      refine h.replay hdone htoken ?_ pass rfl rfl hwhole rfl
      rw [hp, Phase.replayed, Delivery.isPublished, if_pos rfl, b.before_append hdone]
    | some f =>
      -- the batch is given up, and the store still has it
      exact h.leaves (by simp [Courier.replayed]) (Courier.endPass_leaves _ pass).2.1 rfl rfl
        List.prefix_rfl
  | replays pass b e rest d hp hd =>
    obtain ⟨hstore, hpublished⟩ :=
      Link.step_beside C MemoryStore.buffer.recorded c.courier.link e c.world hd
    exact h.replays hp hd rfl hstore hpublished
  | committed pass b hp => exact h.committed hp
  | refreshed hp => exact h.leaves rfl rfl rfl rfl List.prefix_rfl

theorem Backed.call (h : Backed first c) :
    Backed first (c.call C MemoryStore.buffer.recorded) :=
  h.turn (Courier.step_turn _ _ _ _)

theorem Backed.step (h : Backed first c) (hs : Step C MemoryStore.buffer.recorded c d) :
    Backed first d := by
  cases hs with
  | call => exact h.call
  | pass hp => exact h.leaves rfl rfl rfl rfl List.prefix_rfl
  | refresh hp => exact h.leaves rfl rfl rfl rfl List.prefix_rfl
  | receive m i hp hr ht => exact h.leaves rfl rfl rfl rfl List.prefix_rfl
  | exhausted | submit | enter | leave | giveBack | producers | broker =>
    exact ⟨h.whole, h.tail, h.backed⟩

theorem Backed.reaches (h : Backed first c) (hr : Reaches C MemoryStore.buffer.recorded c d) :
    Backed first d := by
  induction hr with
  | refl => exact h
  | tail _ hs ih => exact ih.step hs

theorem backed_start (maxAge : Nat) (counters : RelayCounters) (i : Intake) (broker : β)
    (m : MemoryStore) :
    Backed m.events (start maxAge counters i broker (⟨m, [], []⟩ : Recorded MemoryStore)) := by
  constructor
  · simp [start, Courier.create, Phase.batch?]
  · simp [start, Courier.create, Phase.batch?]
  · simp [start, Courier.create, Phase.replayed]

end Course

/-! ## Nothing that was stored is lost -/

/-- A relay over a store in memory, whatever the broker answers and whatever the store has in it, is
broken off at any call, before the call or when it has been made. However long its producers and the
broker go on: what was in the store at first and what writes have brought into it is still there or
has been published, as many times as it was there. And a commit is only ever called for a batch all
of whose events have been published since it was read. -/
theorem broken_off_relay_keeps_written (C : Connector β) (maxAge : Nat) (counters : RelayCounters)
    (i : Intake) (broker : β) (m : MemoryStore) {c : Course β (Recorded MemoryStore)}
    (hc : Course.Reaches C MemoryStore.buffer.recorded
      (.start maxAge counters i broker ⟨m, [], []⟩) c) :
    (∀ (made : Bool) (d : Course β (Recorded MemoryStore)),
      Course.Reaches C MemoryStore.buffer.recorded
        (c.breakOff C MemoryStore.buffer.recorded made) d →
      d.courier.phase = .stopped ∧
      (↑m.events + ↑d.world.store.written : Multiset Event) ≤
        ↑d.world.store.store.events + ↑d.world.published ∧
      ∀ e ∈ m.events ++ d.world.store.written,
        e ∈ d.world.store.store.events ∨ e ∈ d.world.published) ∧
    (∀ pass b, c.courier.phase = .committing pass b →
      ∃ (r : Course β (Recorded MemoryStore)) (pass' : Nat),
        Course.Reaches C MemoryStore.buffer.recorded
          (.start maxAge counters i broker ⟨m, [], []⟩) r ∧
        r.courier.phase = .reading pass' ∧
        (MemoryStore.buffer.recorded.read r.world.store).1 = .ok (some b) ∧
        Course.Reaches C MemoryStore.buffer.recorded (r.call C MemoryStore.buffer.recorded) c ∧
        c.world.published = r.world.published ++ b.events) := by
  have hbacked := (Course.backed_start maxAge counters i broker m).reaches hc
  constructor
  · intro made d hd
    obtain ⟨hphase, hstore, hpublished⟩ := c.breakOff_keeps C MemoryStore.buffer.recorded made
    obtain ⟨hstopped, hstore', hpublished'⟩ := hd.of_stopped hphase
    have hbacked' := (Course.backed_start maxAge counters i broker m).reaches (hc.brokenAt made)
    have hle : (↑m.events + ↑d.world.store.written : Multiset Event) ≤
        ↑d.world.store.store.events + ↑d.world.published := by
      rw [hstore', hstore, hpublished', hpublished, Multiset.le_iff_count]
      intro a
      have hcounts := hbacked'.backed a
      simp only [Multiset.count_add, Multiset.coe_count]
      omega
    refine ⟨hstopped, hle, ?_⟩
    intro e he
    have hmem : e ∈ (↑m.events + ↑d.world.store.written : Multiset Event) := by
      rw [Multiset.coe_add]
      exact Multiset.mem_coe.mpr he
    rcases Multiset.mem_add.mp (Multiset.mem_of_le hle hmem) with hstored | hsent
    · exact .inl (Multiset.mem_coe.mp hstored)
    · exact .inr (Multiset.mem_coe.mp hsent)
  · intro pass b hp
    have hstart : Course.Underway C MemoryStore.buffer.recorded
        (.start maxAge counters i broker ⟨m, [], []⟩)
        (.start maxAge counters i broker ⟨m, [], []⟩) := by
      intro b hb
      exact absurd hb (Option.some_ne_none b).symm
    obtain ⟨r, hread⟩ := hstart.reaches hc b (by rw [hp]; rfl)
    obtain ⟨pass', hreading⟩ := hread.reading
    have hpublished := hread.published
    rw [hp] at hpublished
    exact ⟨r, pass', hread.before, hreading, hread.answer, hread.since, hpublished⟩

namespace Course

/-- An event is stored, and another one waits at the intake. -/
def oneOfTwoStored : Course Nat (Recorded MemoryStore) :=
  start 300 .zero ⟨2, [⟨0, .new "b"⟩], [], [], 1, false⟩ 5 ⟨⟨3, [.new "a"], .zero false⟩, [], []⟩

/-- A pass has written the second event and published both, and comes to its commit. -/
def bothReplayed : Course Nat (Recorded MemoryStore) :=
  calls quotaConnector MemoryStore.buffer.recorded 11
    { oneOfTwoStored with courier := oneOfTwoStored.courier.beginPass }

theorem reaches_bothReplayed :
    Reaches quotaConnector MemoryStore.buffer.recorded oneOfTwoStored bothReplayed := by
  refine .head (.pass rfl) ?_
  exact reaches_calls _ _ 11 _

end Course

/-- The relay is broken off when the commit has been made: the store is empty, and both events have
been published. -/
theorem broken_off_relay_keeps_written_bothReplayed :
    Course.bothReplayed.world.store.written = [.new "b"] ∧
    (Course.bothReplayed.breakOff quotaConnector MemoryStore.buffer.recorded true).world.store.store.events
      = [] ∧
    (↑[Event.new "a"] + ↑[Event.new "b"] : Multiset Event) ≤
      ↑(Course.bothReplayed.breakOff quotaConnector MemoryStore.buffer.recorded
        true).world.published := by
  have hkeeps := (broken_off_relay_keeps_written quotaConnector 300 .zero _ 5 _
    Course.reaches_bothReplayed).1 true _ .refl
  refine ⟨by decide, by decide, ?_⟩
  have hempty : (Course.bothReplayed.breakOff quotaConnector MemoryStore.buffer.recorded
      true).world.store.store.events = [] := by decide
  have hwritten : (Course.bothReplayed.breakOff quotaConnector MemoryStore.buffer.recorded
      true).world.store.written = [.new "b"] := by decide
  have hle := hkeeps.2.1
  rw [hempty, hwritten, Multiset.coe_nil, Multiset.zero_add] at hle
  exact hle

end AuditRelay
