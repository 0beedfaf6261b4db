import AuditRelay.Proofs.Relay.Delivery

/-!
# AuditRelay.Proofs.Relay.Dropped — what is dropped while the broker is well

The broker accepts whatever it is asked to, and the store may answer as it likes. Then a received
event is published at once, and no event is written to the store but by a pass that takes it up at
the intake: such an event is not offered to the broker first. If the store refuses it, and not for
want of room, it is dropped. Nothing else is dropped (`thriving_relay_drops_refused`).

`Buffer.recorded` notes how the writes have ended, and `Course.Thrives` is a run in which every
connect and every publish succeeds. The invariant is `Course.Kept`.
-/

namespace AuditRelay

variable {β σ : Type}

/-! ## Records of the writes -/

/-- A store with the events that it has taken, and those that it has refused for other reasons than
want of room. -/
structure Recorded (σ : Type) where
  store : σ
  written : List Event
  refused : List Event

/-- Notes the answer to a write, after which the store is `s`. -/
def Recorded.note (x : Recorded σ) (e : Event) (s : σ) : Except Fault Unit → Recorded σ
  | .ok () => { x with store := s, written := x.written ++ [e] }
  | .error f =>
    if f.isStoreFull then { x with store := s }
    else { x with store := s, refused := x.refused ++ [e] }

/-- The same buffer, with notes. -/
def Buffer.recorded (B : Buffer σ) : Buffer (Recorded σ) where
  write e x := ((B.write e x.store).1, x.note e (B.write e x.store).2 (B.write e x.store).1)
  read x := ((B.read x.store).1, { x with store := (B.read x.store).2 })
  commit b x := ((B.commit b x.store).1, { x with store := (B.commit b x.store).2 })
  refresh x := ((B.refresh x.store).1, { x with store := (B.refresh x.store).2 })

/-! ## A broker that is well -/

namespace Delivery

/-- Whether the next call of a delivery succeeds, if it is a connect or a publish. -/
def isServed (C : Connector β) (e : Event) (b : β) : Delivery → Bool
  | connecting => (C.connect b).1.isOk
  | publishing n => (C.publish n e b).1.isOk
  | _ => true

/-- Whether a connect or a publish has failed. -/
def hasFailed : Delivery → Bool
  | discarding _ _ | done (some _) => true
  | _ => false

end Delivery

/-- A delivery whose calls succeed does not fail. -/
theorem Link.step_served (C : Connector β) (B : Buffer σ) (l : Link) (e : Event)
    (w : Outside β σ) {d : Delivery} (hd : d.hasFailed = false)
    (hs : d.isServed C e w.broker = true) :
    (l.step (C.beside B).toConnector e w d).1.hasFailed = false := by
  cases d with
  | checking =>
    cases hl : l.held with
    | none => simp [step, hl, Delivery.hasFailed]
    | some n =>
      by_cases hstale : l.isStale (C.beside B).toConnector n w = true
      · simp [step, hl, hstale, Delivery.hasFailed]
      · simp [step, hl, hstale, Delivery.hasFailed]
  | releasing n => rfl
  | connecting =>
    rcases hc : C.connect w.broker with ⟨_ | _, b⟩
    · simp [Delivery.isServed, hc, Except.isOk, Except.toBool] at hs
    · simp [step, Connector.beside, hc, Delivery.hasFailed]
  | publishing n =>
    rcases hp : C.publish n e w.broker with ⟨_ | _, b⟩
    · simp [Delivery.isServed, hp, Except.isOk, Except.toBool] at hs
    · simp [step, Connector.beside, hp, Delivery.hasFailed]
  | discarding n f => exact absurd hd Bool.noConfusion
  | done failure => exact hd

namespace Phase

/-- Whether the next call on the broker succeeds, if there is one. -/
def isServed (C : Connector β) (b : β) : Phase → Bool
  | delivering e d | replaying _ _ e _ d => d.isServed C e b
  | _ => true

/-- Whether a received event has been offered to the broker in vain. -/
def isRejected : Phase → Bool
  | delivering _ d => d.hasFailed
  | buffering _ none => true
  | _ => false

end Phase

namespace Course

/-- A step with which no connect and no publish fails. -/
def ServedStep (C : Connector β) (B : Buffer σ) (c d : Course β σ) : Prop :=
  Step C B c d ∧ (d = c.call C B → c.courier.phase.isServed C c.world.broker = true)

/-- A run in which every connect and every publish succeeds. -/
abbrev Thrives (C : Connector β) (B : Buffer σ) : Course β σ → Course β σ → Prop :=
  Relation.ReflTransGen (ServedStep C B)

theorem thrives_calls (C : Connector β) (B : Buffer σ) (n : Nat) (c : Course β σ)
    (h : ∀ k < n, (c.calls C B k).courier.phase.isServed C (c.calls C B k).world.broker = true) :
    Thrives C B c (c.calls C B n) := by
  induction n generalizing c with
  | zero => exact .refl
  | succ n ih =>
    refine .head ⟨.call, fun _ => h 0 (Nat.succ_pos n)⟩ (ih _ ?_)
    intro k hk
    exact h (k + 1) (Nat.succ_lt_succ hk)

/-! ## What is kept -/

/-- What a relay keeps to as long as no connect and no publish fails, if it began with so many dropped
events. -/
structure Kept (before : Nat) (c : Course β (Recorded σ)) : Prop where
  /-- Nothing is received while an event is parked. -/
  single : c.courier.phase.isCarrying = true → c.courier.parked = none
  welcome : c.courier.phase.isRejected = false
  dropped : c.courier.counters.dropped = before + c.world.store.refused.length
  /-- The intake is first in, first out. -/
  waiting : c.intake.queue.map Message.event <:+ c.accepted
  /-- Some of the published events were published when they had been received. -/
  places : ∃ sent : List Event, sent.Subperm c.world.published ∧ ∀ a,
    sent.count a + c.world.store.written.count a + c.world.store.refused.count a +
        c.courier.held.count a + (c.intake.queue.map Message.event).count a =
      c.accepted.count a

end Course

namespace Courier

/-- A pass that ends offers what was parked to the broker, or leaves it where it is. -/
theorem endPass_welcome (c : Courier) (pass : Nat) :
    (c.endPass pass).phase.isRejected = false ∧
    (c.endPass pass).counters.dropped = c.counters.dropped := by
  cases pass with
  | zero => exact ⟨rfl, rfl⟩
  | succ n =>
    cases hp : c.parked with
    | none => simp [endPass, hp, Phase.isRejected]
    | some e => simp [endPass, hp, receive, Phase.isRejected, Delivery.hasFailed]

/-- Nothing is received for a batch. -/
theorem replay_welcome (c : Courier) (pass : Nat) (b : Batch) (rest : List Event) :
    (c.replay pass b rest).held = c.parked.toList ∧
    (c.replay pass b rest).phase.isCarrying = false ∧
    (c.replay pass b rest).phase.isRejected = false ∧
    (c.replay pass b rest).counters = c.counters := by
  cases rest with
  | nil => simp [replay, held, Phase.inHand, Phase.isCarrying, Phase.isRejected]
  | cons e left => simp [replay, held, Phase.inHand, Phase.isCarrying, Phase.isRejected]

theorem resume_welcome (c : Courier) (pass : Option Nat) :
    (c.resume pass).phase.isRejected = false ∧ (c.resume pass).counters = c.counters := by
  cases pass with
  | none => exact ⟨rfl, rfl⟩
  | some n => exact ⟨rfl, rfl⟩

end Courier

namespace Course

variable {C : Connector β} {B : Buffer σ} {before : Nat} {c d : Course β (Recorded σ)}

/-- Nothing changes as long as nothing is written or received, and what the courier holds is the
same. -/
theorem Kept.quiet (h : Kept before c) {k : Courier} {w : Outside β (Recorded σ)}
    {abandoned : List Event} (hheld : k.held = c.courier.held)
    (hsingle : k.phase.isCarrying = true → k.parked = none)
    (hwelcome : k.phase.isRejected = false)
    (hdropped : k.counters.dropped = c.courier.counters.dropped)
    (hpublished : c.world.published.Subperm w.published)
    (hwritten : w.store.written = c.world.store.written)
    (hrefused : w.store.refused = c.world.store.refused) :
    Kept before ⟨k, c.intake, w, c.accepted, abandoned⟩ := by
  obtain ⟨sent, hsent, hplaces⟩ := h.places
  constructor
  · exact hsingle
  · exact hwelcome
  · rw [hdropped, hrefused]
    exact h.dropped
  · exact h.waiting
  · refine ⟨sent, hsent.trans hpublished, ?_⟩
    rw [hheld, hwritten, hrefused]
    exact hplaces

/-- A courier that has nothing in hand turns to something else, and still has nothing in hand. -/
theorem Kept.emptyHanded (h : Kept before c) (hhand : c.courier.phase.inHand = []) {k : Courier}
    {s : σ} {abandoned : List Event} (hk : k.phase.inHand = [])
    (hparked : k.parked = c.courier.parked) (hcarry : k.phase.isCarrying = false)
    (hwelcome : k.phase.isRejected = false)
    (hdropped : k.counters.dropped = c.courier.counters.dropped) :
    Kept before ⟨k, c.intake, { c.world with store := { c.world.store with store := s } },
      c.accepted, abandoned⟩ := by
  refine h.quiet ?_ ?_ hwelcome hdropped (List.Subperm.refl _) rfl rfl
  · rw [Courier.held_of_inHand hk, Courier.held_of_inHand hhand, hparked]
  · intro hcarrying
    exact absurd (hcarry.symm.trans hcarrying) Bool.noConfusion

/-- A pass that has nothing in hand ends. -/
theorem Kept.endPass (h : Kept before c) (hhand : c.courier.phase.inHand = []) {k : Courier}
    (hparked : k.parked = c.courier.parked)
    (hdropped : k.counters.dropped = c.courier.counters.dropped) (pass : Nat) (s : σ)
    {abandoned : List Event} :
    Kept before ⟨k.endPass pass, c.intake,
      { c.world with store := { c.world.store with store := s } }, c.accepted, abandoned⟩ := by
  obtain ⟨hleft, -, hsingle⟩ := k.endPass_leaves pass
  obtain ⟨hwelcome, hsame⟩ := k.endPass_welcome pass
  rw [hparked] at hleft
  exact h.quiet (hleft.trans (Courier.held_of_inHand hhand).symm) hsingle hwelcome
    (hsame.trans hdropped) (List.Subperm.refl _) rfl rfl

/-- A pass that has nothing in hand turns to a batch. -/
theorem Kept.replay (h : Kept before c) (hhand : c.courier.phase.inHand = []) (pass : Nat)
    (b : Batch) (rest : List Event) (s : σ) {abandoned : List Event} :
    Kept before ⟨c.courier.replay pass b rest, c.intake,
      { c.world with store := { c.world.store with store := s } }, c.accepted, abandoned⟩ := by
  obtain ⟨hleft, hcarry, hwelcome, hcounters⟩ := c.courier.replay_welcome pass b rest
  refine h.quiet (hleft.trans (Courier.held_of_inHand hhand).symm) ?_ hwelcome ?_
    (List.Subperm.refl _) rfl rfl
  · intro hcarrying
    exact absurd (hcarry.symm.trans hcarrying) Bool.noConfusion
  · exact congrArg RelayCounters.dropped hcounters

/-- An event goes from the intake to the hand of a courier that has nothing. -/
theorem Kept.receive (h : Kept before c) {m : Message} {i : Intake}
    (hhand : c.courier.phase.inHand = []) (hr : c.courier.isReceiving = true)
    (ht : c.intake.take = some (m, i)) {k : Courier} (hheld : k.held = [m.event])
    (hparked : k.parked = none) (hwelcome : k.phase.isRejected = false)
    (hdropped : k.counters.dropped = c.courier.counters.dropped) {abandoned : List Event} :
    Kept before ⟨k, i, c.world, c.accepted, abandoned⟩ := by
  have hfree : c.courier.parked = none := Courier.parked_of_isReceiving hr
  have hwaiting := h.waiting
  obtain ⟨sent, hsent, hplaces⟩ := h.places
  rw [Intake.queue_of_take ht, List.map_cons] at hwaiting hplaces
  constructor
  · exact fun _ => hparked
  · exact hwelcome
  · rw [hdropped]
    exact h.dropped
  · exact (List.suffix_cons m.event _).trans hwaiting
  · refine ⟨sent, hsent, ?_⟩
    intro a
    have hsum := hplaces a
    simp only [Courier.held, hfree, hhand, Option.toList_none, List.append_nil, List.count_nil,
      List.count_cons] at hsum
    simp only [hheld, List.count_cons, List.count_nil]
    omega

/-- A submission comes to its end. -/
theorem Kept.accept (h : Kept before c) {m : Message} {i : Intake}
    (hi : i.queue = c.intake.queue ++ [m]) :
    Kept before { c with intake := i, accepted := c.accepted ++ [m.event] } := by
  obtain ⟨taken, htaken⟩ := h.waiting
  obtain ⟨sent, hsent, hplaces⟩ := h.places
  have hqueue : i.queue.map Message.event = c.intake.queue.map Message.event ++ [m.event] := by
    rw [hi, List.map_append, List.map_singleton]
  constructor
  · exact h.single
  · exact h.welcome
  · exact h.dropped
  · refine ⟨taken, ?_⟩
    rw [hqueue, ← List.append_assoc, htaken]
  · refine ⟨sent, hsent, ?_⟩
    intro a
    have hsum := hplaces a
    simp only [hqueue, List.count_append]
    omega

/-- A pass, or the courier, goes on when the event in hand has found its place. -/
theorem Kept.resume (h : Kept before c) {e : Event} {pass : Option Nat}
    (hp : c.courier.phase = .buffering e pass) (k : Courier) (x : Recorded σ)
    (hdropped : k.counters.dropped = before + x.refused.length)
    (hplace : ∀ a, x.written.count a + x.refused.count a + k.parked.toList.count a =
      c.world.store.written.count a + c.world.store.refused.count a + [e].count a)
    {abandoned : List Event} :
    Kept before ⟨k.resume pass, c.intake, { c.world with store := x }, c.accepted, abandoned⟩ := by
  have hfree : c.courier.parked = none := h.single (by rw [hp]; rfl)
  obtain ⟨hleft, -, hcarry⟩ := k.resume_leaves pass
  obtain ⟨hwelcome, hcounters⟩ := k.resume_welcome pass
  obtain ⟨sent, hsent, hplaces⟩ := h.places
  have hhand : c.courier.held = [e] := by
    rw [Courier.held, hfree, hp]
    rfl
  constructor
  · intro hcarrying
    exact absurd (hcarry.symm.trans hcarrying) Bool.noConfusion
  · exact hwelcome
  · rw [hcounters]
    exact hdropped
  · exact h.waiting
  · refine ⟨sent, hsent, ?_⟩
    intro a
    have hsum := hplaces a
    have hmoved := hplace a
    rw [hhand] at hsum
    have hsum' : sent.count a + x.written.count a + x.refused.count a +
        (k.resume pass).held.count a + (c.intake.queue.map Message.event).count a =
        c.accepted.count a := by
      rw [hleft]
      omega
    exact hsum'

theorem Kept.buffered (h : Kept before c) {e : Event} {pass : Option Nat}
    (hp : c.courier.phase = .buffering e pass) {abandoned : List Event} :
    Kept before ⟨c.courier.buffered e pass (B.recorded.write e c.world.store).1, c.intake,
      { c.world with store := (B.recorded.write e c.world.store).2 }, c.accepted, abandoned⟩ := by
  have hfree : c.courier.parked = none := h.single (by rw [hp]; rfl)
  have hdropped := h.dropped
  simp only [Buffer.recorded]
  cases hr : (B.write e c.world.store.store).1 with
  | ok u =>
    -- the event is in the store
    simp only [Courier.buffered, Recorded.note]
    refine h.resume hp _ _ ?_ ?_
    · exact h.dropped
    · intro a
      simp only [hfree, Option.toList_none, List.count_append, List.count_nil]
      omega
  | error f =>
    by_cases hf : f.isStoreFull = true
    · -- it is parked, where there was none
      simp only [Courier.buffered, Recorded.note, if_pos hf]
      refine h.resume hp _ _ ?_ ?_
      · exact h.dropped
      · intro a
        rfl
    · -- it is dropped
      simp only [Courier.buffered, Recorded.note, if_neg hf]
      refine h.resume hp _ _ ?_ ?_
      · simp only [List.length_append, List.length_singleton]
        omega
      · intro a
        simp only [hfree, Option.toList_none, List.count_append, List.count_nil]
        omega

/-- A delivery goes on: the event stays in the hand of the courier, or goes to the broker. -/
theorem Kept.delivers (h : Kept before c) {e : Event} {way : Delivery}
    (hp : c.courier.phase = .delivering e way) (hway : way.result? = none)
    (hserved : way.isServed C e c.world.broker = true) {abandoned : List Event} :
    Kept before ⟨{ c.courier with
        link := (c.courier.link.step (C.beside B.recorded).toConnector e c.world way).2.1
        phase := .delivering e
          (c.courier.link.step (C.beside B.recorded).toConnector e c.world way).1 },
      c.intake, (c.courier.link.step (C.beside B.recorded).toConnector e c.world way).2.2,
      c.accepted, abandoned⟩ := by
  have hfree : c.courier.parked = none := h.single (by rw [hp]; rfl)
  have hwelcome := h.welcome
  rw [hp] at hwelcome
  obtain ⟨hstore, hpublished⟩ := Link.step_beside C B.recorded c.courier.link e c.world hway
  have hstays := Link.step_served C B.recorded c.courier.link e c.world hwelcome hserved
  have hhand : c.courier.held = [e] := by
    simp [Courier.held, hfree, hp, Phase.inHand, Delivery.isPublished_of_result? hway]
  by_cases hdone : (c.courier.link.step (C.beside B.recorded).toConnector e c.world way).1.isPublished
      = true
  · rw [if_pos hdone] at hpublished
    obtain ⟨sent, hsent, hplaces⟩ := h.places
    constructor
    · exact fun _ => hfree
    · exact hstays
    · rw [hstore]
      exact h.dropped
    · exact h.waiting
    · refine ⟨sent ++ [e], ?_, ?_⟩
      · rw [hpublished]
        exact (List.subperm_append_right [e]).mpr hsent
      · intro a
        have hsum := hplaces a
        simp only [hhand] at hsum
        simp only [hstore, Courier.held, hfree, Phase.inHand, hdone, if_true, Option.toList_none,
          List.nil_append, List.count_append, List.count_nil]
        omega
  · rw [if_neg hdone, List.append_nil] at hpublished
    refine h.quiet ?_ (fun _ => hfree) hstays rfl ?_ (by rw [hstore]) (by rw [hstore])
    · rw [hhand, Courier.held, hfree, Phase.inHand, if_neg hdone]
      rfl
    · rw [hpublished]

/-- A call keeps it, if it is no connect and no publish that fails. -/
theorem Kept.turn (h : Kept before c)
    (hserved : c.courier.phase.isServed C c.world.broker = true) {k : Courier} {i : Intake}
    {w : Outside β (Recorded σ)} {abandoned : List Event}
    (ht : Courier.Turn (C.beside B.recorded) c.courier c.intake c.world k i w) :
    Kept before ⟨k, i, w, c.accepted, abandoned⟩ := by
  cases ht with
  | rests hp => exact h.quiet rfl h.single h.welcome rfl (List.Subperm.refl _) rfl rfl
  | delivered e failure hp =>
    have hwelcome := h.welcome
    rw [hp] at hwelcome
    cases failure with
    | some f => exact absurd hwelcome Bool.noConfusion
    | none => exact h.emptyHanded (by rw [hp]; rfl) rfl rfl rfl rfl rfl
  | delivers e d hp hd => exact h.delivers hp hd (by rwa [hp] at hserved)
  | buffered e pass hp => exact h.buffered hp
  | collects pass m i' hp hr htake =>
    have hfree : c.courier.parked = none := Courier.parked_of_isReceiving hr
    refine h.receive (by rw [hp]; rfl) hr htake ?_ ?_ ?_ ?_
    · rw [Courier.held, hfree]
      rfl
    · exact hfree
    · rfl
    · rfl
  | collected pass c' hp hc hr =>
    have hkeep : c'.parked = c.courier.parked ∧ c'.counters = c.courier.counters := by
      rcases hc with rfl | rfl <;> exact ⟨rfl, rfl⟩
    exact h.emptyHanded (by rw [hp]; rfl) rfl hkeep.1 rfl rfl (by rw [hkeep.2])
  | read pass hp =>
    simp only [Connector.beside, Buffer.recorded]
    rcases (B.read c.world.store.store).1 with f | _ | b
    · exact h.endPass (by rw [hp]; rfl) rfl rfl pass _
    · exact h.endPass (by rw [hp]; rfl) rfl rfl pass _
    · exact h.replay (by rw [hp]; rfl) pass b b.events _
  | replayed pass b e rest failure hp =>
    cases failure with
    | none => exact h.replay (by rw [hp]; rfl) pass b rest c.world.store.store
    | some f =>
      exact h.endPass (k := { c.courier with counters := { c.courier.counters with
        publishFailures := c.courier.counters.publishFailures + 1 } })
        (by rw [hp]; rfl) rfl rfl pass c.world.store.store
  | replays pass b e rest d hp hd =>
    obtain ⟨hstore, hpublished⟩ :=
      Link.step_beside C B.recorded c.courier.link e c.world hd
    refine h.quiet ?_ (fun hcarry => absurd hcarry Bool.noConfusion) rfl rfl ?_ (by rw [hstore])
      (by rw [hstore])
    · rw [Courier.held, Courier.held, hp]
      rfl
    · rw [hpublished]
      exact (List.sublist_append_left _ _).subperm
  | committed pass b hp =>
    simp only [Connector.beside, Buffer.recorded]
    rcases (B.commit b c.world.store.store).1 with f | u
    · exact h.endPass (by rw [hp]; rfl) rfl rfl pass _
    · exact h.emptyHanded (by rw [hp]; rfl) rfl rfl rfl rfl rfl
  | refreshed hp => exact h.emptyHanded (by rw [hp]; rfl) rfl rfl rfl rfl rfl

/-- A step with which no connect and no publish fails keeps it. -/
theorem Kept.step (h : Kept before c) (hs : ServedStep C B.recorded c d) : Kept before d := by
  obtain ⟨hstep, hserved⟩ := hs
  cases hstep with
  | call => exact h.turn (hserved rfl) (Courier.step_turn _ _ _ _)
  | pass hp => exact h.emptyHanded (by rw [hp]; rfl) rfl rfl rfl rfl rfl
  | refresh hp => exact h.emptyHanded (by rw [hp]; rfl) rfl rfl rfl rfl rfl
  | receive m i hp hr htake =>
    have hfree : c.courier.parked = none := Courier.parked_of_isReceiving hr
    refine h.receive (by rw [hp]; rfl) hr htake ?_ ?_ ?_ ?_
    · rw [Courier.held, Courier.receive, hfree]
      rfl
    · exact hfree
    · rfl
    · rfl
  | exhausted hp hr ht hx =>
    exact h.quiet rfl h.single h.welcome rfl (List.Subperm.refl _) rfl rfl
  | submit m =>
    by_cases hroom : c.intake.hasRoom = true
    · rw [if_pos hroom]
      refine h.accept ?_
      rw [Intake.submit, if_pos hroom]
    · have hsame : (c.intake.submit m).queue = c.intake.queue := by
        rw [Intake.submit, if_neg hroom]
      rw [if_neg hroom, List.append_nil]
      constructor
      · exact h.single
      · exact h.welcome
      · exact h.dropped
      · rw [hsame]
        exact h.waiting
      · rw [hsame]
        exact h.places
  | enter m hm => exact h.accept rfl
  | leave m hm => exact ⟨h.single, h.welcome, h.dropped, h.waiting, h.places⟩
  | giveBack m hm => exact ⟨h.single, h.welcome, h.dropped, h.waiting, h.places⟩
  | producers n => exact ⟨h.single, h.welcome, h.dropped, h.waiting, h.places⟩
  | broker b => exact ⟨h.single, h.welcome, h.dropped, h.waiting, h.places⟩

theorem Kept.thrives (h : Kept before c) (hr : Thrives C B.recorded c d) : Kept before d := by
  induction hr with
  | refl => exact h
  | tail _ hs ih => exact ih.step hs

theorem kept_start (maxAge : Nat) (counters : RelayCounters) (i : Intake) (broker : β)
    (store : σ) :
    Kept counters.dropped (start maxAge counters i broker (⟨store, [], []⟩ : Recorded σ)) := by
  constructor
  · exact fun _ => rfl
  · rfl
  · rfl
  · exact List.suffix_rfl
  · refine ⟨[], List.nil_subperm, ?_⟩
    intro a
    simp [start, Courier.create, Courier.held, Phase.inHand]

end Course

/-! ## What is dropped -/

/-- As long as every connect and every publish succeeds, whatever the store answers: an event that has
left the intake was published when it had been received, or a pass has written it to the store, or it
is parked or in hand, or a pass has taken it up and the store has refused it for another reason than
want of room. The relay drops the events of the last kind, and no others. -/
theorem thriving_relay_drops_refused (C : Connector β) (B : Buffer σ) (maxAge : Nat)
    (counters : RelayCounters) (i : Intake) (broker : β) (store : σ) {c : Course β (Recorded σ)}
    (h : Course.Thrives C B.recorded (.start maxAge counters i broker ⟨store, [], []⟩) c) :
    c.courier.counters.dropped = counters.dropped + c.world.store.refused.length ∧
    (∀ e, c.courier.phase ≠ .buffering e none) ∧
    ∃ taken sent : List Event, c.accepted = taken ++ c.intake.queue.map Message.event ∧
      (↑sent : Multiset Event) ≤ ↑c.world.published ∧
      (↑taken : Multiset Event) = ↑sent + ↑c.world.store.written + ↑c.courier.parked.toList +
        ↑c.courier.phase.inHand + ↑c.world.store.refused := by
  have hkept := (Course.kept_start maxAge counters i broker store).thrives h
  refine ⟨hkept.dropped, ?_, ?_⟩
  · intro e hp
    have hwelcome := hkept.welcome
    rw [hp] at hwelcome
    exact absurd hwelcome Bool.noConfusion
  · obtain ⟨taken, htaken⟩ := hkept.waiting
    obtain ⟨sent, hsent, hplaces⟩ := hkept.places
    refine ⟨taken, sent, htaken.symm, Multiset.coe_le.mpr hsent, ?_⟩
    ext a
    have hsum := hplaces a
    simp only [← htaken, Courier.held, List.count_append] at hsum
    simp only [Multiset.count_add, Multiset.coe_count]
    omega

/-- A store of which every write fails, as on a disk that is gone. -/
def brokenBuffer : Buffer Unit where
  write _ s := (.error (.io (.counted .writeIo) (.other "broken")), s)
  read s := (.ok none, s)
  commit _ s := (.ok (), s)
  refresh s := (.ok (), s)

namespace Course

/-- Two events wait for a relay whose store is broken. -/
def twoForBroken : Course Nat (Recorded Unit) :=
  start 300 .zero ⟨2, [⟨0, .new "a"⟩, ⟨1, .new "b"⟩], [], [], 1, false⟩ 5 ⟨(), [], []⟩

/-- The first is received and published, and a pass takes up the second. -/
def secondRefused : Course Nat (Recorded Unit) :=
  let c := calls quotaConnector brokenBuffer.recorded 4
    { twoForBroken with
      courier := twoForBroken.courier.receive (.new "a")
      intake := ⟨2, [⟨1, .new "b"⟩], [], [], 1, false⟩ }
  calls quotaConnector brokenBuffer.recorded 4 { c with courier := c.courier.beginPass }

theorem thrives_secondRefused :
    Thrives quotaConnector brokenBuffer.recorded twoForBroken secondRefused := by
  refine .head ⟨.receive ⟨0, .new "a"⟩ _ rfl rfl rfl, fun _ => rfl⟩ ?_
  refine (thrives_calls _ _ 4 _ (by decide)).trans ?_
  refine .head ⟨.pass rfl, fun _ => rfl⟩ ?_
  exact thrives_calls _ _ 4 _ (by decide)

end Course

/-- A received event is published, and one that a pass takes up is dropped. -/
theorem thriving_relay_drops_refused_second :
    Course.secondRefused.world.published = [.new "a"] ∧
    Course.secondRefused.world.store.refused = [.new "b"] ∧
    Course.secondRefused.courier.counters.dropped =
      RelayCounters.zero.dropped + Course.secondRefused.world.store.refused.length := by
  refine ⟨by decide, by decide, ?_⟩
  exact (thriving_relay_drops_refused quotaConnector brokenBuffer 300 .zero _ 5 ()
    Course.thrives_secondRefused).1

/-- Every connect and every publish has succeeded, and an event is dropped: it has left the intake and
is neither published nor written nor parked nor in hand. -/
theorem absorbed_event_dropped :
    Course.Thrives quotaConnector brokenBuffer.recorded Course.twoForBroken Course.secondRefused ∧
    Course.twoForBroken.courier.counters.dropped = 0 ∧
    Course.secondRefused.courier.counters.dropped = 1 ∧
    .new "b" ∈ Course.secondRefused.accepted ∧
    .new "b" ∉ Course.secondRefused.intake.queue.map Message.event ∧
    .new "b" ∉ Course.secondRefused.world.published ∧
    .new "b" ∉ Course.secondRefused.world.store.written ∧
    Course.secondRefused.courier.parked = none ∧
    Course.secondRefused.courier.phase.inHand = [] := by
  refine ⟨Course.thrives_secondRefused, ?_⟩
  decide

end AuditRelay
