import AuditRelay.Proofs.Relay.Course

/-!
# AuditRelay.Proofs.Relay.Submissions — what producers hand in

A message that is handed in takes a place in the intake, or waits for one in line. `Course.Submits` is a
run with the messages that were handed in on the way and those that were withdrawn. All others have come
to their end or still wait (`Course.Submits.partition`).

* `Intake.IsPacked`: a producer waits only as long as all places are taken.
* `Course.Listens`: a courier stops receiving only when nobody can hand in more.
-/

namespace AuditRelay

variable {β σ : Type}

/-! ## The intake -/

namespace Intake

variable {i j : Intake} {receiving : Bool} {m : Message}

/-- A producer waits only as long as all places are taken. -/
def IsPacked (i : Intake) : Prop :=
  i.waiting ≠ [] → i.capacity ≤ i.queue.length + i.granted.length

/-- The place that becomes free goes to the first who waits, who then waits no more. -/
theorem take_eq (h : i.take = some (m, j)) :
    i.queue = m :: j.queue ∧ j.granted = i.granted ++ i.waiting.take 1 ∧
    j.waiting = i.waiting.drop 1 ∧ j.capacity = i.capacity ∧ j.producers = i.producers := by
  have hq := queue_of_take h
  simp only [Intake.take, hq, Option.some.injEq, Prod.mk.injEq] at h
  rw [← h.2]
  exact ⟨hq, rfl, rfl, rfl, rfl⟩

theorem Change.packed (hc : Change receiving i j) (h : i.IsPacked) : j.IsPacked := by
  intro hwaiting
  -- whoever still waits waited before, with as many places taken
  have hdrop : i.waiting.drop 1 ≠ [] → i.waiting ≠ [] ∧ (i.waiting.take 1).length = 1 := by
    intro hne
    cases hw : i.waiting with
    | nil =>
      rw [hw] at hne
      exact absurd rfl hne
    | cons m ms => exact ⟨List.cons_ne_nil m ms, rfl⟩
  cases hc with
  | same => exact h hwaiting
  | producers n => exact h hwaiting
  | take m _ hr ht =>
    obtain ⟨hqueue, hgranted, hleft, hcapacity, -⟩ := take_eq ht
    rw [hleft] at hwaiting
    obtain ⟨hne, hone⟩ := hdrop hwaiting
    have hle := h hne
    rw [hqueue, List.length_cons] at hle
    rw [hgranted, hcapacity, List.length_append, hone]
    omega
  | submit m =>
    unfold Intake.submit at hwaiting ⊢
    split
    · rename_i hroom
      rw [if_pos hroom] at hwaiting
      have hle := h hwaiting
      have hlt : i.queue.length + i.granted.length < i.capacity := of_decide_eq_true hroom
      omega
    · rename_i hroom
      have hnot : ¬ i.queue.length + i.granted.length < i.capacity :=
        fun hlt => hroom (decide_eq_true hlt)
      exact Nat.not_lt.mp hnot
  | enter m hm =>
    have hle := h hwaiting
    have hpos := List.length_pos_of_mem hm
    simp only [Intake.enter, List.length_append, List.length_singleton, List.length_erase_of_mem hm]
    omega
  | leave m hm =>
    exact h (List.ne_nil_of_mem hm)
  | giveBack m hm =>
    obtain ⟨hne, hone⟩ := hdrop hwaiting
    have hle := h hne
    have hpos := List.length_pos_of_mem hm
    simp only [Intake.giveBack, List.length_append, hone, List.length_erase_of_mem hm]
    omega

/-- As long as nothing is taken out, what waits in the queue stays there. -/
theorem Change.queue_prefix (hc : Change receiving i j) (hr : receiving = false) :
    i.queue <+: j.queue := by
  cases hc with
  | take m _ hr' ht =>
    rw [hr] at hr'
    cases hr'
  | submit m =>
    unfold Intake.submit
    split
    · exact List.prefix_append _ _
    · exact List.prefix_rfl
  | enter m hm => exact List.prefix_append _ _
  | same | leave | giveBack | producers => exact List.prefix_rfl

theorem isExhausted_iff :
    i.isExhausted = true ↔
      i.queue = [] ∧ i.granted = [] ∧ i.waiting = [] ∧ i.producers = 0 := by
  simp [isExhausted, and_assoc]

end Intake

namespace Course

theorem Reaches.packed {C : Connector β} {B : Buffer σ} {c d : Course β σ} (hr : Reaches C B c d)
    (h : c.intake.IsPacked) : d.intake.IsPacked := by
  induction hr with
  | refl => exact h
  | tail _ hs ih => exact hs.change.packed ih

end Course

/-! ## Submissions -/

namespace Course

/-- The events of all submissions that have come to their end or still wait for it. -/
def sent (c : Course β σ) : List Event :=
  c.accepted ++ (c.intake.granted ++ c.intake.waiting).map Message.event

/-- A run with the messages that were handed in on the way, and those that were withdrawn before
their submission came to its end. Messages are handed in by producers, and once all producers are
gone nobody can become one. -/
inductive Submits (C : Connector β) (B : Buffer σ) (c : Course β σ) :
    Course β σ → (started withdrawn : List Message) → Prop where
  | refl : Submits C B c c [] []
  | submit {d : Course β σ} {started withdrawn : List Message} (h : Submits C B c d started withdrawn)
      (m : Message) (hp : 0 < d.intake.producers) :
      Submits C B c
        { d with
          intake := d.intake.submit m
          accepted := d.accepted ++ if d.intake.hasRoom then [m.event] else [] }
        (started ++ [m]) withdrawn
  | leave {d : Course β σ} {started withdrawn : List Message} (h : Submits C B c d started withdrawn)
      (m : Message) (hm : m ∈ d.intake.waiting) :
      Submits C B c { d with intake := d.intake.leave m } started (withdrawn ++ [m])
  | giveBack {d : Course β σ} {started withdrawn : List Message}
      (h : Submits C B c d started withdrawn) (m : Message) (hm : m ∈ d.intake.granted) :
      Submits C B c { d with intake := d.intake.giveBack m } started (withdrawn ++ [m])
  /-- Any step with which no submission begins and none is abandoned. -/
  | other {d d' : Course β σ} {started withdrawn : List Message}
      (h : Submits C B c d started withdrawn) (hs : Step C B d d') (hsent : d'.sent.Perm d.sent)
      (hp : d.intake.producers = 0 → d'.intake.producers = 0) :
      Submits C B c d' started withdrawn

variable {C : Connector β} {B : Buffer σ} {c d : Course β σ} {started withdrawn : List Message}

theorem Submits.reaches (h : Submits C B c d started withdrawn) : Reaches C B c d := by
  induction h with
  | refl => exact .refl
  | submit _ m _ ih => exact ih.tail (.submit m)
  | leave _ m hm ih => exact ih.tail (.leave m hm)
  | giveBack _ m hm ih => exact ih.tail (.giveBack m hm)
  | other _ hs _ _ ih => exact ih.tail hs

/-- A submission that begins comes to its end at once, or waits. -/
theorem sent_submit (c : Course β σ) (m : Message) :
    (sent { c with
      intake := c.intake.submit m
      accepted := c.accepted ++ if c.intake.hasRoom then [m.event] else [] }).Perm
        (m.event :: c.sent) := by
  by_cases hroom : c.intake.hasRoom = true
  · simp only [sent, Intake.submit, if_pos hroom]
    rw [List.append_assoc]
    exact List.perm_middle
  · simp only [sent, Intake.submit, if_neg hroom]
    rw [List.append_nil, ← List.append_assoc, List.map_append, ← List.append_assoc,
      List.map_singleton]
    exact List.perm_append_singleton _ _

theorem sent_leave {m : Message} (hm : m ∈ c.intake.waiting) :
    c.sent.Perm (m.event :: sent { c with intake := c.intake.leave m }) := by
  have hwaiting : (c.intake.granted ++ c.intake.waiting).Perm
      (m :: (c.intake.granted ++ c.intake.waiting.erase m)) :=
    ((List.perm_cons_erase hm).append_left _).trans List.perm_middle
  exact ((hwaiting.map Message.event).append_left _).trans List.perm_middle

theorem sent_giveBack {m : Message} (hm : m ∈ c.intake.granted) :
    c.sent.Perm (m.event :: sent { c with intake := c.intake.giveBack m }) := by
  have hnext : c.intake.granted.erase m ++ c.intake.waiting.take 1 ++ c.intake.waiting.drop 1 =
      c.intake.granted.erase m ++ c.intake.waiting := by
    rw [List.append_assoc, List.take_append_drop]
  have hgranted : (c.intake.granted ++ c.intake.waiting).Perm
      (m :: (c.intake.granted.erase m ++ c.intake.waiting)) :=
    (List.perm_cons_erase hm).append_right _
  have hsent : sent { c with intake := c.intake.giveBack m } =
      c.accepted ++ (c.intake.granted.erase m ++ c.intake.waiting).map Message.event := by
    rw [sent, ← hnext]
    rfl
  rw [hsent]
  exact ((hgranted.map Message.event).append_left _).trans List.perm_middle

/-- Every message that was handed in has been accepted, still waits or was withdrawn. -/
theorem Submits.partition (h : Submits C B c d started withdrawn) (hc : c.sent = []) :
    (started.map Message.event).Perm (d.sent ++ withdrawn.map Message.event) := by
  induction h with
  | refl =>
    rw [hc]
    exact .refl _
  | @submit d started withdrawn _ m _ ih =>
    rw [List.map_append, List.map_singleton]
    have hmore := ((sent_submit d m).append_right (withdrawn.map Message.event)).symm
    exact (List.perm_append_singleton _ _).trans ((ih.cons m.event).trans hmore)
  | @leave d started withdrawn _ m hm ih =>
    rw [List.map_append, List.map_singleton, ← List.append_assoc]
    refine (ih.trans ((sent_leave hm).append_right _)).trans ?_
    exact (List.perm_append_singleton _ _).symm
  | @giveBack d started withdrawn _ m hm ih =>
    rw [List.map_append, List.map_singleton, ← List.append_assoc]
    refine (ih.trans ((sent_giveBack hm).append_right _)).trans ?_
    exact (List.perm_append_singleton _ _).symm
  | other _ hs hsent _ ih => exact ih.trans (hsent.symm.append_right _)

/-- Taking an event out gives its place away, and no submission begins or is abandoned. -/
theorem sent_of_take {m : Message} {i : Intake} (ht : c.intake.take = some (m, i)) {k : Courier}
    {w : Outside β σ} {abandoned : List Event} :
    sent ⟨k, i, w, c.accepted, abandoned⟩ = c.sent := by
  obtain ⟨-, hgranted, hwaiting, -⟩ := Intake.take_eq ht
  rw [sent, sent, hgranted, hwaiting, List.append_assoc, List.take_append_drop]

theorem Submits.call (h : Submits C B c d started withdrawn) :
    Submits C B c (d.call C B) started withdrawn := by
  rcases call_intake C B d with hsame | ⟨-, m, ht⟩
  · refine h.other .call ?_ ?_
    · rw [sent, sent, hsame]
      exact .refl _
    · rw [hsame]
      exact id
  · refine h.other .call ?_ ?_
    · have hsent : (d.call C B).sent = d.sent := sent_of_take ht
      rw [hsent]
    · intro hnone
      exact (Intake.take_eq ht).2.2.2.2.trans hnone

theorem Submits.calls (n : Nat) (h : Submits C B c d started withdrawn) :
    Submits C B c (d.calls C B n) started withdrawn := by
  induction n generalizing d with
  | zero => exact h
  | succ n ih => exact ih h.call

theorem Submits.receive (h : Submits C B c d started withdrawn) {m : Message} {i : Intake}
    (hp : d.courier.phase = .idle) (hr : d.courier.isReceiving = true)
    (ht : d.intake.take = some (m, i)) :
    Submits C B c { d with courier := d.courier.receive m.event, intake := i } started
      withdrawn := by
  refine h.other (.receive m i hp hr ht) ?_ ?_
  · rw [sent_of_take ht]
  · intro hnone
    exact (Intake.take_eq ht).2.2.2.2.trans hnone

end Course

/-! ## The end of the producers -/

namespace Courier

@[simp] theorem intakeOpen_endPass (c : Courier) (pass : Nat) :
    (c.endPass pass).intakeOpen = c.intakeOpen := by
  cases pass with
  | zero => rfl
  | succ n => cases hp : c.parked <;> simp [endPass, hp, receive]

@[simp] theorem intakeOpen_resume (c : Courier) (pass : Option Nat) :
    (c.resume pass).intakeOpen = c.intakeOpen := by
  cases pass with
  | none => rfl
  | some n => rfl

@[simp] theorem intakeOpen_replay (c : Courier) (pass : Nat) (b : Batch) (rest : List Event) :
    (c.replay pass b rest).intakeOpen = c.intakeOpen := by
  cases rest with
  | nil => rfl
  | cons e left => rfl

@[simp] theorem intakeOpen_buffered (c : Courier) (e : Event) (pass : Option Nat)
    (answer : Except Fault Unit) : (c.buffered e pass answer).intakeOpen = c.intakeOpen := by
  cases answer with
  | ok u => simp [buffered]
  | error f =>
    by_cases hf : f.isStoreFull = true
    · simp [buffered, hf]
    · simp [buffered, hf]

/-- Only a call that collects may end the receiving. -/
theorem Turn.intakeOpen {S : Surroundings σ} {c k : Courier} {i j : Intake} {w w' : σ}
    (h : Turn S c i w k j w') (hp : ∀ pass, c.phase ≠ .collecting pass) :
    k.intakeOpen = c.intakeOpen := by
  cases h with
  | collects pass m _ hc hr ht => exact absurd hc (hp pass)
  | collected pass c' hc hs hr => exact absurd hc (hp pass)
  | rests | delivers | replays | refreshed => rfl
  | delivered e failure =>
    cases failure with
    | none => rfl
    | some f => rfl
  | buffered e pass => exact intakeOpen_buffered c e pass _
  | read pass =>
    rcases (S.read w).1 with f | _ | b
    · exact intakeOpen_endPass c pass
    · exact intakeOpen_endPass c pass
    · exact intakeOpen_replay c pass b b.events
  | replayed pass b e rest failure =>
    cases failure with
    | none => exact intakeOpen_replay c pass b rest
    | some f => exact intakeOpen_endPass _ pass
  | committed pass b =>
    rcases (S.commit b w).1 with f | u
    · exact intakeOpen_endPass c pass
    · rfl

/-- A call ends the receiving only if the intake is exhausted. -/
theorem intakeOpen_step (S : Surroundings σ) (c : Courier) (i : Intake) (w : σ) :
    (c.step S i w).1.intakeOpen = c.intakeOpen ∨ i.isExhausted = true := by
  by_cases hx : i.isExhausted = true
  · exact .inr hx
  · left
    cases hp : c.phase with
    | collecting pass =>
      simp only [step, hp, if_neg hx]
      by_cases hr : c.isReceiving = true
      · rw [if_pos hr]
        cases i.take with
        | none => rfl
        | some p => rfl
      · rw [if_neg hr]
    | idle | delivering | buffering | reading | replaying | committing | refreshing | stopped =>
      refine (step_turn S c i w).intakeOpen ?_
      intro pass hc
      rw [hc] at hp
      cases hp

end Courier

namespace Course

variable {C : Connector β} {B : Buffer σ} {c d : Course β σ} {started withdrawn : List Message}

/-- A courier that has stopped receiving has nobody to receive from. -/
def Listens (c : Course β σ) : Prop :=
  c.courier.intakeOpen = false → c.intake.isExhausted = true

theorem Listens.step (h : Listens c) (hs : Step C B c d) (hsent : d.sent.Perm c.sent)
    (hp : c.intake.producers = 0 → d.intake.producers = 0) : Listens d := by
  intro hclosed
  cases hs with
  | call =>
    have hx : c.intake.isExhausted = true := by
      rcases Courier.intakeOpen_step (C.beside B) c.courier c.intake c.world with hsame | hx
      · exact h (hsame.symm.trans hclosed)
      · exact hx
    rcases call_intake C B c with hsame | ⟨-, m, ht⟩
    · rw [hsame]
      exact hx
    · -- nothing is left to be taken
      have hnil := (Intake.isExhausted_iff.mp hx).1
      rw [(Intake.take_eq ht).1] at hnil
      cases hnil
  | pass hidle => exact h hclosed
  | refresh hidle => exact h hclosed
  | broker b => exact h hclosed
  | exhausted hidle hr ht hx => exact hx
  | receive m i hidle hr ht =>
    have hopen : c.courier.intakeOpen = true := (Bool.and_eq_true_iff.mp hr).1
    have hclosed : c.courier.intakeOpen = false := hclosed
    rw [hopen] at hclosed
    cases hclosed
  | submit m =>
    -- one more submission would have begun
    have hlength := ((sent_submit c m).symm.trans hsent).length_eq
    rw [List.length_cons] at hlength
    omega
  | enter m hm =>
    rw [(Intake.isExhausted_iff.mp (h hclosed)).2.1] at hm
    cases hm
  | leave m hm =>
    rw [(Intake.isExhausted_iff.mp (h hclosed)).2.2.1] at hm
    cases hm
  | giveBack m hm =>
    rw [(Intake.isExhausted_iff.mp (h hclosed)).2.1] at hm
    cases hm
  | producers n =>
    obtain ⟨hqueue, hgranted, hwaiting, hnone⟩ := Intake.isExhausted_iff.mp (h hclosed)
    exact Intake.isExhausted_iff.mpr ⟨hqueue, hgranted, hwaiting, hp hnone⟩

theorem Submits.listens (h : Submits C B c d started withdrawn) (hc : Listens c) : Listens d := by
  induction h with
  | refl => exact hc
  | submit _ m hp ih =>
    -- there is a producer, so the courier still receives
    intro hclosed
    have hnone := (Intake.isExhausted_iff.mp (ih hclosed)).2.2.2
    omega
  | leave _ m hm ih =>
    intro hclosed
    rw [(Intake.isExhausted_iff.mp (ih hclosed)).2.2.1] at hm
    cases hm
  | giveBack _ m hm ih =>
    intro hclosed
    rw [(Intake.isExhausted_iff.mp (ih hclosed)).2.1] at hm
    cases hm
  | other _ hs hsent hp ih => exact ih.step hs hsent hp

end Course

end AuditRelay
