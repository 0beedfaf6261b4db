import AuditRelay.Proofs.Relay.Backpressure

/-!
# AuditRelay.Proofs.Relay.Recovery — a pass while the broker is well

A pass takes up what waits at the intake, and producers that were waiting hand in more meanwhile. It
fills the store before each batch, and may find it full and park an event. If every connect and every
publish succeeds, the pass ends after so many calls as what is inside and what is handed in on the way
make necessary; the store is empty then, nothing is parked, and what was stored or parked or has been
taken up has been published once (`pass_recovers`).

`Course.Pass` is such a pass with its producers. `Phase.effort` bounds the calls that are still to come,
and every call lowers it. That the parked event does not stay behind rests on `Course.IsLoaded`: as long
as an event is parked there is something in the store that the pass is going to commit, or it has
committed something already.
-/

namespace AuditRelay

variable {β σ : Type}

/-! ## First in, first out -/

namespace Course

variable {C : Connector β} {B : Buffer σ} {c d : Course β σ}

/-- What has been published stays published. -/
theorem Step.published_prefix (hs : Step C B c d) : c.world.published <+: d.world.published := by
  cases hs with
  | call =>
    obtain ⟨k, i, w, ht, hcall⟩ := c.call_turn C B
    rw [hcall]
    cases ht with
    | delivers e d hp hd =>
      simp only [(Link.step_beside C B c.courier.link e c.world hd).2]
      exact List.prefix_append _ _
    | replays pass b e rest d hp hd =>
      simp only [(Link.step_beside C B c.courier.link e c.world hd).2]
      exact List.prefix_append _ _
    | rests | delivered | buffered | collects | collected | read | replayed | committed
    | refreshed => exact List.prefix_rfl
  | pass | refresh | receive | exhausted | submit | enter | leave | giveBack | producers | broker =>
    exact List.prefix_rfl

/-- What is accepted goes to the end of the queue, and what is taken out comes from its front. -/
structure Queues (c d : Course β σ) (new taken : List Event) : Prop where
  accepted : d.accepted = c.accepted ++ new
  queue : c.intake.queue.map Message.event ++ new = taken ++ d.intake.queue.map Message.event

theorem Queues.trans {e : Course β σ} {new new' taken taken' : List Event}
    (h : Queues c d new taken) (h' : Queues d e new' taken') :
    Queues c e (new ++ new') (taken ++ taken') := by
  constructor
  · rw [h'.accepted, h.accepted, List.append_assoc]
  · rw [← List.append_assoc, h.queue, List.append_assoc, h'.queue, List.append_assoc]

theorem Step.queues (hs : Step C B c d) : ∃ new taken, Queues c d new taken := by
  have hsame : ∀ {i : Intake}, i.queue = c.intake.queue → ∀ {k : Courier} {w : Outside β σ}
      {abandoned : List Event}, Queues c ⟨k, i, w, c.accepted, abandoned⟩ [] [] := by
    intro i hi k w abandoned
    refine ⟨(List.append_nil _).symm, ?_⟩
    rw [hi, List.append_nil, List.nil_append]
  have htaken : ∀ {m : Message} {i : Intake}, c.intake.take = some (m, i) → ∀ {k : Courier}
      {w : Outside β σ} {abandoned : List Event},
      Queues c ⟨k, i, w, c.accepted, abandoned⟩ [] [m.event] := by
    intro m i ht k w abandoned
    refine ⟨(List.append_nil _).symm, ?_⟩
    rw [(Intake.take_eq ht).1, List.append_nil, List.map_cons, List.singleton_append]
  cases hs with
  | call =>
    rcases call_intake C B c with hi | ⟨-, m, ht⟩
    · exact ⟨[], [], hsame (congrArg Intake.queue hi)⟩
    · exact ⟨[], [m.event], htaken ht⟩
  | receive m i hp hr ht => exact ⟨[], [m.event], htaken ht⟩
  | submit m =>
    by_cases hroom : c.intake.hasRoom = true
    · refine ⟨[m.event], [], by simp only [hroom, if_true], ?_⟩
      simp only [Intake.submit, hroom, if_true, List.map_append, List.map_singleton,
        List.nil_append]
    · refine ⟨[], [], by simp only [hroom, Bool.false_eq_true, if_false], ?_⟩
      simp only [Intake.submit, hroom, Bool.false_eq_true, if_false, List.append_nil,
        List.nil_append]
  | enter m hm =>
    refine ⟨[m.event], [], rfl, ?_⟩
    simp only [Intake.enter, List.map_append, List.map_singleton, List.nil_append]
  | pass | refresh | exhausted | broker => exact ⟨[], [], hsame rfl⟩
  | leave m hm => exact ⟨[], [], hsame (i := c.intake.leave m) rfl⟩
  | giveBack m hm => exact ⟨[], [], hsame (i := c.intake.giveBack m) rfl⟩
  | producers n => exact ⟨[], [], hsame (i := { c.intake with producers := n }) rfl⟩

theorem Reaches.queues (hr : Reaches C B c d) : ∃ new taken, Queues c d new taken := by
  induction hr with
  | refl => exact ⟨[], [], (List.append_nil _).symm, List.append_nil _⟩
  | tail _ hs ih =>
    obtain ⟨new, taken, h⟩ := ih
    obtain ⟨new', taken', h'⟩ := hs.queues
    exact ⟨_, _, h.trans h'⟩

theorem Reaches.published_prefix (hr : Reaches C B c d) :
    c.world.published <+: d.world.published := by
  induction hr with
  | refl => exact List.prefix_rfl
  | tail _ hs ih => exact ih.trans hs.published_prefix

end Course

/-! ## While an event is parked -/

/-- The number of batches that the pass in progress has committed. -/
def Phase.pass : Phase → Nat
  | buffering _ (some pass) | collecting pass | reading pass | replaying pass _ _ _ _
  | committing pass _ => pass
  | _ => 0

namespace Course

variable {C : Connector β} {limit : Nat} {c d : Course β MemoryStore}

/-- While an event is parked there is something in the store, or the pass in progress has committed
something and is going to take the event in hand. -/
def IsLoaded (c : Course β MemoryStore) : Prop :=
  c.courier.parked.isSome = true → c.world.store.events ≠ [] ∨ 0 < c.courier.phase.pass

theorem isLoaded_of_parked {c : Course β MemoryStore} (h : c.courier.parked = none) :
    c.IsLoaded := by
  intro hsome
  rw [h] at hsome
  cases hsome

/-- Nothing changes as long as nothing leaves the store and the pass goes on. -/
theorem IsLoaded.goesOn (h : c.IsLoaded) (hparked : d.courier.parked = c.courier.parked)
    (hpass : c.courier.phase.pass ≤ d.courier.phase.pass)
    (hevents : d.world.store.events = c.world.store.events) : d.IsLoaded := by
  intro hsome
  rw [hparked] at hsome
  rcases h hsome with hstored | hpos
  · left
    rwa [hevents]
  · exact .inr (Nat.lt_of_lt_of_le hpos hpass)

/-- The end of a pass takes the parked event in hand, or leaves it and the store as they were. -/
theorem IsLoaded.endPass (h : c.IsLoaded) {k : Courier} (hk : k.parked = c.courier.parked)
    (hd : d.courier = k.endPass c.courier.phase.pass)
    (hevents : d.world.store.events = c.world.store.events) : d.IsLoaded := by
  cases hpass : c.courier.phase.pass with
  | succ n =>
    refine isLoaded_of_parked ?_
    rw [hd, hpass]
    exact (k.endPass_succ n).1
  | zero =>
    refine h.goesOn ?_ ?_ hevents
    · rw [hd, hpass]
      exact hk
    · rw [hpass]
      exact Nat.zero_le _

theorem pass_replay (k : Courier) (pass : Nat) (b : Batch) (rest : List Event) :
    (k.replay pass b rest).phase.pass = pass := by
  cases rest with
  | nil => rfl
  | cons e left => rfl

/-- The event in hand is parked only if the store is full, and then it is not empty. -/
theorem Inside.loaded_buffered (h : Inside limit c) (hlimit : 0 < limit) {e : Event}
    {pass : Option Nat} (hp : c.courier.phase = .buffering e pass) (abandoned : List Event) :
    IsLoaded ⟨c.courier.buffered e pass ((C.beside MemoryStore.buffer).write e c.world).1, c.intake,
      ((C.beside MemoryStore.buffer).write e c.world).2, c.accepted, abandoned⟩ := by
  have hfree : c.courier.parked = none := h.balanced.single (by rw [hp]; rfl)
  rcases MemoryStore.write_cases c.world.store e with ⟨hr, hs⟩ | ⟨f, hr, hf, hs⟩
  · refine isLoaded_of_parked ?_
    simp only [Connector.beside, MemoryStore.buffer, hr, Courier.buffered]
    cases pass with
    | none => exact hfree
    | some n => exact hfree
  · intro _
    left
    show (c.world.store.write e).2.events ≠ []
    rw [hs]
    have hfull := MemoryStore.le_length_of_write hr
    rw [h.keeps.store.1] at hfull
    intro hnil
    rw [hnil, List.length_nil] at hfull
    omega

/-- The answer to a publish ends the pass, or the pass goes on with the batch. -/
theorem IsLoaded.replayed (h : c.IsLoaded) {pass : Nat} {b : Batch} {e : Event} {rest : List Event}
    {failure : Option Fault} (hp : c.courier.phase = .replaying pass b e rest (.done failure))
    (abandoned : List Event) :
    IsLoaded
      ⟨c.courier.replayed pass b rest failure, c.intake, c.world, c.accepted, abandoned⟩ := by
  have hpass : pass = c.courier.phase.pass := by rw [hp]; rfl
  cases failure with
  | some f =>
    refine h.endPass (k := { c.courier with counters := { c.courier.counters with
      publishFailures := c.courier.counters.publishFailures + 1 } }) rfl ?_ rfl
    rw [← hpass]
    rfl
  | none =>
    refine h.goesOn (c.courier.replay_parked pass b rest) ?_ rfl
    exact (hpass.symm.trans (pass_replay c.courier pass b rest).symm).le

theorem IsLoaded.call (h : c.IsLoaded) (hinside : Inside limit c) (hlimit : 0 < limit) :
    IsLoaded (c.call C MemoryStore.buffer) := by
  have hb := hinside.balanced
  obtain ⟨k, i, w, ht, hcall⟩ := c.call_turn C MemoryStore.buffer
  rw [hcall]
  cases ht with
  | rests hp => exact h.goesOn rfl (Nat.le_refl _) rfl
  | delivered e failure hp =>
    refine isLoaded_of_parked ?_
    have hfree : c.courier.parked = none := hb.single (by rw [hp]; rfl)
    cases failure with
    | none => exact hfree
    | some f => exact hfree
  | delivers e d hp hd => exact isLoaded_of_parked (hb.single (by rw [hp]; rfl))
  | buffered e pass hp => exact hinside.loaded_buffered hlimit hp _
  | collects pass m j hp hr ht =>
    exact isLoaded_of_parked (Courier.parked_of_isReceiving hr)
  | collected pass c' hp hc hr =>
    refine h.goesOn ?_ ?_ rfl
    · rcases hc with rfl | rfl
      · rfl
      · rfl
    · rw [hp]
      exact Nat.le_refl pass
  | read pass hp =>
    have hpass : pass = c.courier.phase.pass := by rw [hp]; rfl
    have hevents := (MemoryStore.nextBatch_cases c.world.store).1
    rcases ((C.beside MemoryStore.buffer).read c.world).1 with f | _ | b
    · exact h.endPass rfl (congrArg c.courier.endPass hpass) hevents
    · exact h.endPass rfl (congrArg c.courier.endPass hpass) hevents
    · refine h.goesOn (c.courier.replay_parked pass b b.events) ?_ hevents
      exact (hpass.symm.trans (pass_replay c.courier pass b b.events).symm).le
  | replayed pass b e rest failure hp => exact h.replayed hp _
  | replays pass b e rest d hp hd =>
    refine h.goesOn rfl ?_ (congrArg MemoryStore.events (Link.step_beside C _ _ e _ hd).1)
    rw [hp]
    exact Nat.le_refl pass
  | committed pass b hp =>
    obtain ⟨htoken, -⟩ := hb.whole b (by rw [hp]; rfl)
    intro _
    right
    simp only [Connector.beside, MemoryStore.buffer, htoken, Courier.committed, Phase.pass]
    exact Nat.succ_pos pass
  | refreshed hp =>
    refine h.goesOn rfl ?_ rfl
    rw [hp]
    exact Nat.le_refl 0

theorem IsLoaded.step (h : c.IsLoaded) (hinside : Inside limit c) (hlimit : 0 < limit)
    (hs : Step C MemoryStore.buffer c d) : d.IsLoaded := by
  cases hs with
  | call => exact h.call hinside hlimit
  | pass hp | refresh hp =>
    refine h.goesOn rfl ?_ rfl
    rw [hp]
    exact Nat.le_refl 0
  | receive m i hp hr ht => exact isLoaded_of_parked (Courier.parked_of_isReceiving hr)
  | exhausted | submit | enter | leave | giveBack | producers | broker => exact h

theorem IsLoaded.reaches (h : c.IsLoaded) (hinside : Inside limit c) (hlimit : 0 < limit)
    (hr : Reaches C MemoryStore.buffer c d) : d.IsLoaded := by
  induction hr with
  | refl => exact h
  | tail hr hs ih => exact ih.step (hinside.reaches hlimit hr) hlimit hs

end Course

/-! ## What is still to be done -/

namespace Intake

variable {i j : Intake} {m : Message}

/-- The events that have been handed in and not taken out. -/
def pending (i : Intake) : Nat :=
  i.queue.length + i.granted.length + i.waiting.length

theorem pending_of_take (h : i.take = some (m, j)) : i.pending = j.pending + 1 := by
  obtain ⟨hqueue, hgranted, hwaiting, -⟩ := take_eq h
  rw [pending, pending, hqueue, hgranted, hwaiting, List.length_cons, List.length_append,
    List.length_take, List.length_drop]
  omega

theorem pending_submit (i : Intake) (m : Message) : (i.submit m).pending = i.pending + 1 := by
  unfold submit
  split
  · simp only [pending, List.length_append, List.length_singleton]
    omega
  · simp only [pending, List.length_append, List.length_singleton]
    omega

end Intake

/-- How many calls a pass may still need from this phase on, if so many events are pending at the intake
and so many are stored. An event that is taken up needs two calls until it is stored, and six more in a
batch; a batch needs three in itself, but has at least one event. A parked event needs six calls at the
end. -/
def Phase.effort (pending stored : Nat) : Phase → Nat
  | idle | stopped => 0
  | refreshing => 1
  | delivering _ d => d.remaining + 1
  | collecting _ => 11 * pending + 9 * stored + 8
  | buffering _ _ => 11 * pending + 9 * stored + 18
  | reading _ => 11 * pending + 9 * stored + 7
  | replaying _ _ _ rest d => 11 * pending + 6 * rest.length + (d.remaining + 1) + 9
  | committing _ _ => 11 * pending + 9

namespace Phase

variable {pending pending' : Nat}

theorem effort_mono (p : Phase) (stored : Nat) (h : pending ≤ pending') :
    p.effort pending stored ≤ p.effort pending' stored := by
  cases p with
  | idle | stopped | refreshing | delivering => exact Nat.le_refl _
  | collecting | buffering | reading | replaying | committing =>
    simp only [effort]
    omega

theorem effort_succ_le (p : Phase) (pending stored : Nat) :
    p.effort (pending + 1) stored ≤ p.effort pending stored + 11 := by
  cases p with
  | idle | stopped | refreshing | delivering => exact Nat.le_add_right _ 11
  | collecting | buffering | reading | replaying | committing =>
    simp only [effort]
    omega

end Phase

namespace Course

/-- How many calls a pass may still need. -/
def effort (c : Course β MemoryStore) : Nat :=
  c.courier.phase.effort c.intake.pending c.world.store.events.length

/-- A pass in which no connect and no publish has failed, or the end of one. What is received when the
store has been read to its end is the event that was parked. -/
def IsWell (c : Course β MemoryStore) : Prop :=
  match c.courier.phase with
  | .idle => c.world.store.events = [] ∧ c.courier.parked = none
  | .delivering _ d => c.world.store.events = [] ∧ d.hasFailed = false
  | .replaying _ _ _ _ d => d.hasFailed = false
  | .collecting _ | .buffering _ (some _) | .reading _ | .committing _ _ => True
  | .buffering _ none | .refreshing | .stopped => False

variable {C : Connector β} {limit : Nat} {c d : Course β MemoryStore}

/-- A pass that finds the store empty ends well, with one event in hand at most. -/
theorem endPass_isWell (k : Courier) {pass : Nat} (hparked : k.parked.isSome = true → 0 < pass)
    (i : Intake) {w : Outside β MemoryStore} (hempty : w.store.events = [])
    (accepted abandoned : List Event) :
    IsWell ⟨k.endPass pass, i, w, accepted, abandoned⟩ ∧
    effort ⟨k.endPass pass, i, w, accepted, abandoned⟩ ≤ 6 := by
  cases pass with
  | zero =>
    have hfree : k.parked = none := by
      cases hp : k.parked with
      | none => rfl
      | some e =>
        rw [hp] at hparked
        exact absurd (hparked rfl) (lt_irrefl 0)
    exact ⟨⟨hempty, hfree⟩, Nat.zero_le 6⟩
  | succ n =>
    obtain ⟨hfree, -, hidle | ⟨e, hdelivering⟩⟩ := k.endPass_succ n
    · simp only [IsWell, effort, hidle, Phase.effort]
      exact ⟨⟨hempty, hfree⟩, Nat.zero_le 6⟩
    · simp only [IsWell, effort, hdelivering, Phase.effort]
      exact ⟨⟨hempty, rfl⟩, Nat.le_refl 6⟩

/-- Six calls are left for each event of a batch that is left. -/
theorem replay_isWell (k : Courier) (pass : Nat) (b : Batch) (rest : List Event) (i : Intake)
    (w : Outside β MemoryStore) (accepted abandoned : List Event) :
    IsWell ⟨k.replay pass b rest, i, w, accepted, abandoned⟩ ∧
    effort ⟨k.replay pass b rest, i, w, accepted, abandoned⟩ =
      11 * i.pending + 6 * rest.length + 9 := by
  cases rest with
  | nil => exact ⟨trivial, rfl⟩
  | cons e left =>
    refine ⟨rfl, ?_⟩
    simp only [effort, Courier.replay, Phase.effort, Delivery.remaining, List.length_cons]
    omega

/-- In a pass in which nothing has failed no batch has been given up. -/
theorem IsWell.givenUp (h : c.IsWell) : c.courier.phase.givenUp = [] := by
  cases hp : c.courier.phase with
  | replaying pass b e rest d =>
    simp only [IsWell, hp] at h
    cases d with
    | done failure =>
      cases failure with
      | none => rfl
      | some f => cases h
    | checking | releasing | connecting | publishing | discarding => rfl
  | idle | delivering | buffering | collecting | reading | committing | refreshing | stopped => rfl

/-- A pass that is well stays well and comes nearer to its end. -/
structure Advances (c d : Course β MemoryStore) : Prop where
  isWell : d.IsWell
  effort : d.effort < c.effort

/-- The parked event is delivered. -/
theorem IsWell.delivers (h : c.IsWell) {e : Event} {way : Delivery}
    (hp : c.courier.phase = .delivering e way) (hway : way.result? = none)
    (hserved : way.isServed C e c.world.broker = true) (abandoned : List Event) :
    Advances c ⟨{ c.courier with
        link := (c.courier.link.step (C.beside MemoryStore.buffer).toConnector e c.world way).2.1
        phase := .delivering e
          (c.courier.link.step (C.beside MemoryStore.buffer).toConnector e c.world way).1 },
      c.intake, (c.courier.link.step (C.beside MemoryStore.buffer).toConnector e c.world way).2.2,
      c.accepted, abandoned⟩ := by
  rw [IsWell, hp] at h
  have hstore := (Link.step_beside C MemoryStore.buffer c.courier.link e c.world hway).1
  constructor
  · refine ⟨?_, Link.step_served C _ c.courier.link e c.world h.2 hserved⟩
    rw [hstore]
    exact h.1
  · rw [effort, effort, hp]
    exact Nat.succ_lt_succ (Link.remaining_step _ e _ _ way (Delivery.remaining_ne_zero hway))

/-- What has been taken up is stored, or parked if the store is full. -/
theorem IsWell.buffered (h : c.IsWell) {e : Event} {pass : Option Nat}
    (hp : c.courier.phase = .buffering e pass) (abandoned : List Event) :
    Advances c ⟨c.courier.buffered e pass ((C.beside MemoryStore.buffer).write e c.world).1,
      c.intake, ((C.beside MemoryStore.buffer).write e c.world).2, c.accepted, abandoned⟩ := by
  have heffort : c.effort =
      c.courier.phase.effort c.intake.pending c.world.store.events.length := rfl
  rw [hp] at heffort
  rw [IsWell, hp] at h
  cases pass with
  | none => cases h
  | some n =>
    rcases MemoryStore.write_cases c.world.store e with ⟨hr, hs⟩ | ⟨f, hr, hf, hs⟩
    · simp only [Connector.beside, MemoryStore.buffer, hr, Courier.buffered, Courier.resume]
      refine ⟨trivial, ?_⟩
      simp only [effort, Phase.effort, hs, List.length_append, List.length_singleton] at heffort ⊢
      omega
    · simp only [Connector.beside, MemoryStore.buffer, hr, Courier.buffered, if_pos hf,
        Courier.resume]
      refine ⟨trivial, ?_⟩
      simp only [effort, Phase.effort, hs] at heffort ⊢
      omega

/-- The pass turns to the whole store, or ends because it is empty. -/
theorem IsLoaded.read (h : c.IsLoaded) {pass : Nat} (hp : c.courier.phase = .reading pass)
    (abandoned : List Event) :
    Advances c ⟨c.courier.gotBatch pass ((C.beside MemoryStore.buffer).read c.world).1, c.intake,
      ((C.beside MemoryStore.buffer).read c.world).2, c.accepted, abandoned⟩ := by
  have heffort : c.effort =
      c.courier.phase.effort c.intake.pending c.world.store.events.length := rfl
  rw [hp, Phase.effort] at heffort
  by_cases hempty : c.world.store.events = []
  · -- nothing is left, and what is parked is taken in hand
    have hparked : c.courier.parked.isSome = true → 0 < pass := by
      intro hsome
      have hpos := (h hsome).resolve_left (fun hne => hne hempty)
      rwa [hp] at hpos
    simp only [Connector.beside, MemoryStore.buffer, MemoryStore.nextBatch_of_nil hempty,
      Courier.gotBatch]
    obtain ⟨hwell, hle⟩ := endPass_isWell c.courier hparked c.intake
      (w := ⟨c.world.broker, c.world.published, c.world.store⟩) hempty c.accepted abandoned
    refine ⟨hwell, Nat.lt_of_le_of_lt hle ?_⟩
    rw [heffort]
    omega
  · simp only [Connector.beside, MemoryStore.buffer, MemoryStore.nextBatch_of_ne_nil hempty,
      Courier.gotBatch]
    obtain ⟨hwell, heq⟩ := replay_isWell c.courier pass
      ⟨c.world.store.events, .oldest c.world.store.events.length⟩ c.world.store.events c.intake
      ⟨c.world.broker, c.world.published, { c.world.store with
        counters := c.world.store.counters.countReads c.world.store.events.length }⟩
      c.accepted abandoned
    refine ⟨hwell, ?_⟩
    have hpos := List.length_pos_of_ne_nil hempty
    rw [heq, heffort]
    omega

/-- An event of the batch is delivered. -/
theorem IsWell.replays (h : c.IsWell) {pass : Nat} {b : Batch} {e : Event} {rest : List Event}
    {way : Delivery} (hp : c.courier.phase = .replaying pass b e rest way)
    (hway : way.result? = none) (hserved : way.isServed C e c.world.broker = true)
    (abandoned : List Event) :
    Advances c ⟨{ c.courier with
        link := (c.courier.link.step (C.beside MemoryStore.buffer).toConnector e c.world way).2.1
        phase := .replaying pass b e rest
          (c.courier.link.step (C.beside MemoryStore.buffer).toConnector e c.world way).1 },
      c.intake, (c.courier.link.step (C.beside MemoryStore.buffer).toConnector e c.world way).2.2,
      c.accepted, abandoned⟩ := by
  rw [IsWell, hp] at h
  have hless := Link.remaining_step (C.beside MemoryStore.buffer).toConnector e c.courier.link
    c.world way (Delivery.remaining_ne_zero hway)
  refine ⟨Link.step_served C _ c.courier.link e c.world h hserved, ?_⟩
  rw [effort, effort, hp]
  simp only [Phase.effort]
  omega

/-- A call on a broker that is well is one call less to come. -/
theorem IsWell.call (h : c.IsWell) (hinside : Inside limit c) (hloaded : c.IsLoaded)
    (hbusy : c.courier.phase ≠ .idle)
    (hserved : c.courier.phase.isServed C c.world.broker = true) :
    Advances c (c.call C MemoryStore.buffer) := by
  have hb := hinside.balanced
  have hwell := h
  have heffort : c.effort =
    c.courier.phase.effort c.intake.pending c.world.store.events.length := rfl
  obtain ⟨k, i, w, ht, hcall⟩ := c.call_turn C MemoryStore.buffer
  rw [hcall]
  cases ht with
  | rests hp =>
    rw [IsWell, hp.resolve_left hbusy] at hwell
    cases hwell
  | delivered e failure hp =>
    rw [IsWell, hp] at hwell
    rw [hp] at heffort
    have hfree : c.courier.parked = none := hb.single (by rw [hp]; rfl)
    cases failure with
    | some f => cases hwell.2
    | none => exact ⟨⟨hwell.1, hfree⟩, heffort ▸ Nat.zero_lt_one⟩
  | delivers e way hp hway => exact h.delivers hp hway (by rwa [hp] at hserved) _
  | buffered e pass hp => exact h.buffered hp _
  | collects pass m j hp hr ht =>
    rw [hp, Intake.pending_of_take ht] at heffort
    refine ⟨trivial, ?_⟩
    simp only [effort, Phase.effort] at heffort ⊢
    omega
  | collected pass c' hp hc hr =>
    rw [hp] at heffort
    refine ⟨trivial, ?_⟩
    simp only [effort, Phase.effort] at heffort ⊢
    omega
  | read pass hp => exact hloaded.read hp _
  | replayed pass b e rest failure hp =>
    rw [IsWell, hp] at hwell
    rw [hp] at heffort
    cases failure with
    | some f => cases hwell
    | none =>
      obtain ⟨hwell', heq⟩ := replay_isWell c.courier pass b rest c.intake c.world c.accepted
        (c.abandoned ++ c.courier.phase.givenUp)
      refine ⟨hwell', ?_⟩
      rw [Courier.replayed, heq, heffort, Phase.effort, Delivery.remaining]
      omega
  | replays pass b e rest way hp hway => exact h.replays hp hway (by rwa [hp] at hserved) _
  | committed pass b hp =>
    obtain ⟨htoken, hevents⟩ := hb.whole b (by rw [hp]; rfl)
    rw [hp] at heffort
    simp only [Connector.beside, MemoryStore.buffer, htoken, Courier.committed]
    refine ⟨trivial, ?_⟩
    simp only [effort, Phase.effort, MemoryStore.commit, hevents, List.drop_length,
      List.length_nil] at heffort ⊢
    omega
  | refreshed hp =>
    rw [IsWell, hp] at hwell
    cases hwell

/-! ## A pass among its producers -/

/-- Something that happens beside the courier, and with which no submission begins. Once all producers
are gone nobody can become one. -/
inductive Beside (c : Course β σ) : Course β σ → Prop where
  | enter (m : Message) (h : m ∈ c.intake.granted) :
      Beside c { c with intake := c.intake.enter m, accepted := c.accepted ++ [m.event] }
  | leave (m : Message) (h : m ∈ c.intake.waiting) :
      Beside c { c with intake := c.intake.leave m }
  | giveBack (m : Message) (h : m ∈ c.intake.granted) :
      Beside c { c with intake := c.intake.giveBack m }
  | producers (n : Nat) (h : c.intake.producers = 0 → n = 0) :
      Beside c { c with intake := { c.intake with producers := n } }
  | broker (b : β) : Beside c { c with world := { c.world with broker := b } }

/-- A pass that a free courier begins, with the number of its calls and of the submissions that have
begun meanwhile. Every connect and every publish of the pass succeeds. It ends when the courier is free
again. -/
inductive Pass (C : Connector β) (c : Course β MemoryStore) :
    Course β MemoryStore → (calls sent : Nat) → Prop where
  | begins (h : c.courier.phase = .idle) : Pass C c { c with courier := c.courier.beginPass } 0 0
  | call {d : Course β MemoryStore} {calls sent : Nat} (h : Pass C c d calls sent)
      (hbusy : d.courier.phase ≠ .idle)
      (hserved : d.courier.phase.isServed C d.world.broker = true) :
      Pass C c (d.call C MemoryStore.buffer) (calls + 1) sent
  | submit {d : Course β MemoryStore} {calls sent : Nat} (h : Pass C c d calls sent) (m : Message)
      (hp : 0 < d.intake.producers) :
      Pass C c
        { d with
          intake := d.intake.submit m
          accepted := d.accepted ++ if d.intake.hasRoom then [m.event] else [] }
        calls (sent + 1)
  | beside {d d' : Course β MemoryStore} {calls sent : Nat} (h : Pass C c d calls sent)
      (hs : Beside d d') : Pass C c d' calls sent

variable {calls sent : Nat}

/-- What happens beside the courier brings no more to the intake, and leaves the store alone. -/
theorem Beside.keeps {c d : Course β σ} (hs : Beside c d) :
    d.courier = c.courier ∧ d.world.store = c.world.store ∧ d.abandoned = c.abandoned ∧
    d.intake.pending ≤ c.intake.pending := by
  refine ⟨?_, ?_, ?_, ?_⟩
  · cases hs with
    | enter | leave | giveBack | producers | broker => rfl
  · cases hs with
    | enter | leave | giveBack | producers | broker => rfl
  · cases hs with
    | enter | leave | giveBack | producers | broker => rfl
  · cases hs with
    | producers | broker => exact Nat.le_refl _
    | enter m hm =>
      have hpos := List.length_pos_of_mem hm
      simp only [Intake.pending, Intake.enter, List.length_append, List.length_singleton,
        List.length_erase_of_mem hm]
      omega
    | leave m hm =>
      simp only [Intake.pending, Intake.leave, List.length_erase_of_mem hm]
      omega
    | giveBack m hm =>
      simp only [Intake.pending, Intake.giveBack, List.length_append, List.length_take,
        List.length_drop, List.length_erase_of_mem hm]
      omega

/-- The submission of a producer that fills its place comes to its end. -/
theorem sent_enter {c : Course β σ} {m : Message} (hm : m ∈ c.intake.granted) :
    (Course.sent { c with
      intake := c.intake.enter m
      accepted := c.accepted ++ [m.event] }).Perm c.sent := by
  have hgranted : (c.intake.granted ++ c.intake.waiting).Perm
      (m :: (c.intake.granted.erase m ++ c.intake.waiting)) :=
    (List.perm_cons_erase hm).append_right _
  rw [Course.sent, Course.sent, List.append_assoc]
  exact ((hgranted.map Message.event).append_left _).symm

/-- The whole run, before the pass and in it. -/
theorem Pass.submits {s : Course β MemoryStore} {started withdrawn : List Message}
    (h : Pass C c d calls sent) (hc : Submits C MemoryStore.buffer s c started withdrawn) :
    ∃ started' withdrawn', Submits C MemoryStore.buffer s d started' withdrawn' := by
  induction h with
  | begins hidle => exact ⟨_, _, hc.other (.pass hidle) (.refl _) id⟩
  | call _ hbusy hserved ih =>
    obtain ⟨started', withdrawn', hd⟩ := ih
    exact ⟨_, _, hd.call⟩
  | submit _ m hp ih =>
    obtain ⟨started', withdrawn', hd⟩ := ih
    exact ⟨_, _, hd.submit m hp⟩
  | beside _ hs ih =>
    obtain ⟨started', withdrawn', hd⟩ := ih
    cases hs with
    | enter m hm => exact ⟨_, _, hd.other (.enter m hm) (sent_enter hm) id⟩
    | leave m hm => exact ⟨_, _, hd.leave m hm⟩
    | giveBack m hm => exact ⟨_, _, hd.giveBack m hm⟩
    | producers n hn => exact ⟨_, _, hd.other (.producers n) (.refl _) hn⟩
    | broker b => exact ⟨_, _, hd.other (.broker b) (.refl _) id⟩

theorem Pass.reaches (h : Pass C c d calls sent) : Reaches C MemoryStore.buffer c d := by
  obtain ⟨started, withdrawn, hd⟩ := h.submits .refl
  exact hd.reaches

/-- Only a free courier begins a pass. -/
theorem Pass.idle (h : Pass C c d calls sent) : c.courier.phase = .idle := by
  induction h with
  | begins hidle => exact hidle
  | call _ _ _ ih | submit _ _ _ ih | beside _ _ ih => exact ih

/-- Nothing fails in such a pass, and the calls that it has made and those that may still come are no
more than what was there at first and what has been handed in since make necessary. -/
theorem Pass.spec (h : Pass C c d calls sent) (hinside : Inside limit c) (hloaded : c.IsLoaded)
    (hlimit : 0 < limit) :
    d.IsWell ∧ d.abandoned = c.abandoned ∧
    calls + d.effort ≤
      11 * (c.intake.pending + sent) + 9 * c.world.store.events.length + 8 := by
  induction h with
  | begins hidle =>
    refine ⟨trivial, rfl, ?_⟩
    simp only [effort, Courier.beginPass, Phase.effort]
    omega
  | @call d calls sent hpass hbusy hserved ih =>
    obtain ⟨hwell, habandoned, hle⟩ := ih
    have hreaches := hpass.reaches
    obtain ⟨hwell', hless⟩ := hwell.call (hinside.reaches hlimit hreaches)
      (hloaded.reaches hinside hlimit hreaches) hbusy hserved
    refine ⟨hwell', ?_, by omega⟩
    show d.abandoned ++ d.courier.phase.givenUp = c.abandoned
    rw [hwell.givenUp, List.append_nil, habandoned]
  | @submit d calls sent _ m hp ih =>
    obtain ⟨hwell, habandoned, hle⟩ := ih
    refine ⟨hwell, habandoned, ?_⟩
    have hmore := d.courier.phase.effort_succ_le d.intake.pending d.world.store.events.length
    rw [effort] at hle
    simp only [effort, Intake.pending_submit]
    omega
  | @beside d d' calls sent _ hs ih =>
    obtain ⟨hwell, habandoned, hle⟩ := ih
    obtain ⟨hcourier, hstore, hsame, hpending⟩ := hs.keeps
    refine ⟨?_, hsame.trans habandoned, ?_⟩
    · rw [IsWell, hcourier, hstore]
      exact hwell
    · have hless := d.courier.phase.effort_mono d.world.store.events.length hpending
      rw [effort] at hle
      rw [effort, hcourier, hstore]
      omega

/-- A pass goes on as long as it has not ended and nothing fails. -/
theorem Pass.goesOn (h : Pass C c d calls sent) (n : Nat)
    (hbusy : ∀ k < n, (d.calls C MemoryStore.buffer k).courier.phase ≠ .idle)
    (hserved : ∀ k < n, (d.calls C MemoryStore.buffer k).courier.phase.isServed C
      (d.calls C MemoryStore.buffer k).world.broker = true) :
    Pass C c (d.calls C MemoryStore.buffer n) (calls + n) sent := by
  induction n generalizing d calls with
  | zero => exact h
  | succ n ih =>
    have hnext := ih (h.call (hbusy 0 (Nat.succ_pos n)) (hserved 0 (Nat.succ_pos n)))
      (fun k hk => hbusy (k + 1) (Nat.succ_lt_succ hk))
      (fun k hk => hserved (k + 1) (Nat.succ_lt_succ hk))
    rwa [Nat.add_assoc, Nat.add_comm 1 n] at hnext

/-- A pass stops looking for events only if it has parked one or there is none. -/
theorem Listens.queue_of_collected (h : d.Listens) {pass : Nat}
    (hp : d.courier.phase = .collecting pass)
    (hnext : (d.call C MemoryStore.buffer).courier.phase = .reading pass)
    (hfree : d.courier.parked = none) : d.intake.queue = [] := by
  by_cases hr : d.courier.isReceiving = true
  · cases ht : d.intake.take with
    | none =>
      cases hq : d.intake.queue with
      | nil => rfl
      | cons m queue => simp [Intake.take, hq] at ht
    | some next =>
      -- an event is taken up
      simp [Course.call, Courier.step, hp, hr, ht] at hnext
  · have hclosed : d.courier.intakeOpen = false := by
      simpa [Courier.isReceiving, hfree] using hr
    exact (Intake.isExhausted_iff.mp (h hclosed)).1

/-- When nothing has been given up between two times at which the courier is free, what was published in
between is what has left the intake, the store or the parked place. -/
theorem Balanced.published_perm (hc : Balanced c) (hd : Balanced d)
    (hidle : c.courier.phase = .idle) (hidle' : d.courier.phase = .idle)
    (habandoned : d.abandoned = c.abandoned) (hempty : d.world.store.events = [])
    (hfree : d.courier.parked = none) {new taken published : List Event} (hq : Queues c d new taken)
    (hpublished : d.world.published = c.world.published ++ published) :
    published.Perm (c.world.store.events ++ c.courier.parked.toList ++ taken) := by
  rw [List.perm_iff_count]
  intro a
  have hbefore := hc.places a
  have hafter := hd.places a
  have hqueue := congrArg (List.count a) hq.queue
  simp only [Courier.held, replayed, hidle, Phase.inHand, Phase.replayed, List.append_nil]
    at hbefore
  simp only [Courier.held, replayed, hidle', hfree, hempty, habandoned, hpublished, hq.accepted,
    Phase.inHand, Phase.replayed, Option.toList_none, List.append_nil, List.count_nil,
    List.count_append] at hafter
  simp only [List.count_append] at hqueue ⊢
  omega

end Course

/-- A pass over a store in memory that was empty when the relay began, whatever has happened since:
broker, intake and producers may be in any state that the run can bring about. As long as every connect
and every publish succeeds, the pass cannot make more calls than what was pending and stored at first
and what has been handed in since make necessary, and so it comes to its end. It stops looking for
events only if it finds none or has parked one. At its end the store is empty, nothing is parked and the
gauge is down; and it has published exactly what was stored or parked when it began and what it has
taken out of the intake. -/
theorem pass_recovers (C : Connector β) (maxAge : Nat) {counters : RelayCounters}
    (hgauge : counters.backpressure = false) (i : Intake) (broker : β) {m : MemoryStore}
    (hm : m.events = []) (hlimit : 0 < m.limit) {c d : Course β MemoryStore}
    {started withdrawn : List Message}
    (hr : Course.Submits C MemoryStore.buffer (.start maxAge counters i broker m) c started
      withdrawn)
    {calls sent : Nat} (h : Course.Pass C c d calls sent) :
    calls ≤ 11 * (c.intake.pending + sent) + 9 * c.world.store.events.length + 8 ∧
    ((∀ n, (d.calls C MemoryStore.buffer n).courier.phase.isServed C
        (d.calls C MemoryStore.buffer n).world.broker = true) →
      ∃ n, (d.calls C MemoryStore.buffer n).courier.phase = .idle) ∧
    (∀ pass, d.courier.phase = .collecting pass →
      (d.call C MemoryStore.buffer).courier.phase = .reading pass →
      d.courier.parked = none → d.intake.queue = []) ∧
    (d.courier.phase = .idle →
      d.world.store.events = [] ∧ d.courier.parked = none ∧
      d.courier.counters.backpressure = false ∧
      ∃ new taken published, d.accepted = c.accepted ++ new ∧
        c.intake.queue.map Message.event ++ new = taken ++ d.intake.queue.map Message.event ∧
        d.world.published = c.world.published ++ published ∧
        published.Perm (c.world.store.events ++ c.courier.parked.toList ++ taken)) := by
  have hstart := Course.inside_start maxAge hgauge i broker hm
  have hinside := hstart.reaches hlimit hr.reaches
  have hloaded : c.IsLoaded :=
    Course.IsLoaded.reaches (Course.isLoaded_of_parked rfl) hstart hlimit hr.reaches
  have hreaches := h.reaches
  have hinside' := hinside.reaches hlimit hreaches
  obtain ⟨started', withdrawn', hsubmits⟩ := h.submits hr
  have hlistens : d.Listens := hsubmits.listens fun hclosed => by cases hclosed
  obtain ⟨hwell, habandoned, hle⟩ := h.spec hinside hloaded hlimit
  refine ⟨by omega, ?_, ?_, ?_⟩
  · -- a pass that went on for ever would make too many calls
    intro hserved
    by_contra hnever
    have hbusy := not_exists.mp hnever
    have hlong := h.goesOn (11 * (c.intake.pending + sent) + 9 * c.world.store.events.length + 9)
      (fun k _ => hbusy k) (fun k _ => hserved k)
    have hbound := (hlong.spec hinside hloaded hlimit).2.2
    omega
  · exact fun pass hp hnext hfree => hlistens.queue_of_collected hp hnext hfree
  · intro hidle
    have hidle' : c.courier.phase = .idle := h.idle
    rw [Course.IsWell, hidle] at hwell
    obtain ⟨hempty, hfree⟩ := hwell
    obtain ⟨new, taken, hq⟩ := hreaches.queues
    obtain ⟨published, hpublished⟩ := hreaches.published_prefix
    have htold : d.courier.counters.backpressure = d.courier.parked.isSome := hinside'.keeps.told
    rw [hfree] at htold
    exact ⟨hempty, hfree, htold, new, taken, published, hq.accepted, hq.queue, hpublished.symm,
      hinside.balanced.published_perm hinside'.balanced hidle' hidle habandoned hempty hfree hq
        hpublished.symm⟩

namespace Course

/-- A relay with room for one event in the store and one in the intake, after an outage: one event is
stored, one is in the intake and a third waits for its place. -/
def afterOutage : Course Nat MemoryStore :=
  let c := handIn (handIn (bufferNext (handIn narrow ⟨0, .new "a"⟩)) ⟨1, .new "b"⟩) ⟨2, .new "c"⟩
  { c with world := { c.world with broker := 9 } }

/-- A pass takes up the second event, for which there is no room, and the third comes into the intake
meanwhile. After so many more calls. -/
def recovering (n : Nat) : Course Nat MemoryStore :=
  let c := calls quotaConnector MemoryStore.buffer 1
    { afterOutage with courier := afterOutage.courier.beginPass }
  calls quotaConnector MemoryStore.buffer n
    { c with intake := c.intake.enter ⟨2, .new "c"⟩, accepted := c.accepted ++ [.new "c"] }

theorem submits_afterOutage :
    Submits quotaConnector MemoryStore.buffer narrow afterOutage
      [⟨0, .new "a"⟩, ⟨1, .new "b"⟩, ⟨2, .new "c"⟩] [] := by
  have hstored : Submits quotaConnector MemoryStore.buffer narrow
      (bufferNext (handIn narrow ⟨0, .new "a"⟩)) [⟨0, .new "a"⟩] [] :=
    ((Submits.refl.submit ⟨0, .new "a"⟩ (by decide)).receive rfl rfl rfl).calls 6
  have hwaiting := (hstored.submit ⟨1, .new "b"⟩ (by decide)).submit ⟨2, .new "c"⟩ (by decide)
  exact hwaiting.other (.broker 9) (.refl _) id

theorem pass_recovering : Pass quotaConnector afterOutage (recovering 13) 14 0 := by
  have hbegun : Pass quotaConnector afterOutage _ 0 0 := .begins (by decide)
  have hcollected := hbegun.goesOn 1 (by decide) (by decide)
  have hentered := hcollected.beside (.enter ⟨2, .new "c"⟩ (by decide))
  exact hentered.goesOn 13 (by decide) (by decide)

end Course

/-- The second event is parked in the middle of the pass, and published at its end. The third is still
in the intake. -/
theorem pass_recovers_afterOutage :
    Course.afterOutage.world.store.events = [.new "a"] ∧
    (Course.recovering 1).courier.parked = some (.new "b") ∧
    (Course.recovering 13).world.published = [.new "a", .new "b"] ∧
    (Course.recovering 13).intake.queue.map Message.event = [.new "c"] ∧
    (Course.recovering 13).world.store.events = [] ∧
    (Course.recovering 13).courier.parked = none ∧
    (Course.recovering 13).courier.counters.backpressure = false ∧
    ∃ new taken published, (Course.recovering 13).accepted = Course.afterOutage.accepted ++ new ∧
      Course.afterOutage.intake.queue.map Message.event ++ new =
        taken ++ (Course.recovering 13).intake.queue.map Message.event ∧
      (Course.recovering 13).world.published = Course.afterOutage.world.published ++ published ∧
      published.Perm (Course.afterOutage.world.store.events ++
        Course.afterOutage.courier.parked.toList ++ taken) := by
  have hrecovers := pass_recovers quotaConnector 300 rfl ⟨1, [], [], [], 1, false⟩ 0 rfl (by decide)
    Course.submits_afterOutage Course.pass_recovering
  exact ⟨by decide, by decide, by decide, by decide, hrecovers.2.2.2 (by decide)⟩

end AuditRelay
