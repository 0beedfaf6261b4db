import AuditRelay.Proofs.Relay.Delivery

/-!
# AuditRelay.Proofs.Relay.Shutdown — what is lost when a relay stops

A relay over a store in memory of its own is told to stop, perhaps while it waits for the answer to a
call. The call is then made or not, and its answer is lost either way (`Course.breakOff`). The relay
gives up what it is at, and when it has let go of its connection the intake goes too, with all that
waits in it. So an accepted event that is neither published nor stored then is one that was parked or
in hand when the relay was told to stop, or one that waited at the intake when that went: at most one
of the first kind (`Course.Balanced.length_held_le`), and as many of the second as the intake has
places (`length_lost_le`). Not more than one event is lost exactly if there was not more than one
(`shutdown_loses_one_iff`).
-/

namespace AuditRelay

variable {β σ : Type}

namespace Course

/-! ## Stopping -/

/-- The relay stops: what it is at is abandoned, and the connection is given up. What it has
published of a batch in progress has been published in vain. -/
def stop (C : Connector β) (B : Buffer σ) (c : Course β σ) : Course β σ :=
  { c with
    courier := (c.courier.stop (C.beside B) c.world).1
    world := (c.courier.stop (C.beside B) c.world).2
    abandoned := c.replayed }

/-- What the others see of a relay that is told to stop while it waits for the answer to the call of its
phase: the call has been made, or not. -/
def brokenAt (C : Connector β) (B : Buffer σ) (made : Bool) (c : Course β σ) : Course β σ :=
  if made then c.call C B else c

/-- The relay is told to stop while it waits for the answer to the call of its phase. If the call has
been made, it has done to the broker, the store and the intake what it does, and the relay never learns
of it. -/
def breakOff (C : Connector β) (B : Buffer σ) (made : Bool) (c : Course β σ) : Course β σ :=
  { { c with
      intake := (c.brokenAt C B made).intake
      world := (c.brokenAt C B made).world }.stop C B with
    abandoned := (c.brokenAt C B made).replayed }

/-- The relay has ended, and the intake goes. -/
def close (c : Course β σ) : Course β σ :=
  { c with intake := c.intake.close }

/-- All but one of the accepted events are published or stored. An event that was published in vain
is counted once more on either side. -/
def LosesAtMostOne (c : Course β MemoryStore) : Prop :=
  ∃ lost : Multiset Event, lost.card ≤ 1 ∧
    (↑c.accepted + ↑c.replayed : Multiset Event) ≤
      ↑c.world.published + ↑c.world.store.events + lost

/-- A relay that has stopped, with the events that it held when it was told to. -/
structure Stopped (held : List Event) (c : Course β MemoryStore) : Prop where
  phase : c.courier.phase = .stopped
  places : ∀ a,
    c.world.published.count a + c.world.store.events.count a + held.count a +
        (c.intake.queue.map Message.event).count a =
      c.accepted.count a + c.replayed.count a

variable {C : Connector β} {c d : Course β MemoryStore} {held : List Event}

/-- Giving up the connection moves no event. -/
theorem stop_keeps (C : Connector β) (B : Buffer σ) (c : Course β σ) :
    (c.stop C B).courier.phase = .stopped ∧ (c.stop C B).world.store = c.world.store ∧
    (c.stop C B).world.published = c.world.published := by
  cases hl : c.courier.link.held with
  | none => simp [stop, Courier.stop, Link.disconnect, hl]
  | some n => simp [stop, Courier.stop, Link.disconnect, hl, Connector.beside]

/-- What is outside is what it was before the call or after it. -/
theorem breakOff_keeps (C : Connector β) (B : Buffer σ) (made : Bool) (c : Course β σ) :
    (c.breakOff C B made).courier.phase = .stopped ∧
    (c.breakOff C B made).world.store = (c.brokenAt C B made).world.store ∧
    (c.breakOff C B made).world.published = (c.brokenAt C B made).world.published :=
  stop_keeps C B { c with
    intake := (c.brokenAt C B made).intake
    world := (c.brokenAt C B made).world }

theorem brokenAt_accepted (C : Connector β) (B : Buffer σ) (made : Bool) (c : Course β σ) :
    (c.brokenAt C B made).accepted = c.accepted := by
  cases made <;> rfl

theorem Reaches.brokenAt {B : Buffer σ} {c d : Course β σ} (hr : Reaches C B c d) (made : Bool) :
    Reaches C B c (d.brokenAt C B made) := by
  cases made with
  | false => exact hr
  | true => exact hr.tail .call

theorem Balanced.breakOff (made : Bool) (h : Balanced (c.brokenAt C MemoryStore.buffer made)) :
    Stopped (c.brokenAt C MemoryStore.buffer made).courier.held
      (c.breakOff C MemoryStore.buffer made) := by
  obtain ⟨hphase, hstore, hpublished⟩ := c.breakOff_keeps C MemoryStore.buffer made
  constructor
  · exact hphase
  · intro a
    have hreplayed : (c.breakOff C MemoryStore.buffer made).replayed =
        (c.brokenAt C MemoryStore.buffer made).replayed := by
      rw [replayed, hphase]
      exact List.append_nil _
    have haccepted : (c.breakOff C MemoryStore.buffer made).accepted =
        (c.brokenAt C MemoryStore.buffer made).accepted :=
      (c.brokenAt_accepted C MemoryStore.buffer made).symm
    rw [hstore, hpublished, hreplayed, haccepted]
    exact h.places a

/-- Once the relay has stopped only its producers and the broker go on. -/
theorem Stopped.step (h : Stopped held c) (hs : Step C MemoryStore.buffer c d) :
    Stopped held d := by
  have hbusy : c.courier.phase ≠ .idle := by
    rw [h.phase]
    exact Phase.noConfusion
  have hplaces := h.places
  cases hs with
  | call =>
    -- a stopped courier makes no call
    have hcall : c.call C MemoryStore.buffer = c := by
      simp [call, Courier.step, h.phase, Phase.givenUp]
    rw [hcall]
    exact h
  | pass hp => exact absurd hp hbusy
  | refresh hp => exact absurd hp hbusy
  | receive m i hp hr ht => exact absurd hp hbusy
  | exhausted hp hr ht hx => exact absurd hp hbusy
  | submit m =>
    constructor
    · exact h.phase
    · intro a
      -- an event that finds room is accepted and waits
      have hsum := hplaces a
      by_cases hroom : c.intake.hasRoom = true
      · simp only [replayed, Intake.submit, hroom, if_true, List.map_append, List.map_cons,
          List.map_nil, List.count_append] at hsum ⊢
        omega
      · simpa [replayed, Intake.submit, hroom] using hsum
  | enter m hm =>
    constructor
    · exact h.phase
    · intro a
      have hsum := hplaces a
      simp only [replayed, Intake.enter, List.map_append, List.map_cons, List.map_nil,
        List.count_append] at hsum ⊢
      omega
  | leave m hm => exact ⟨h.phase, hplaces⟩
  | giveBack m hm => exact ⟨h.phase, hplaces⟩
  | producers n => exact ⟨h.phase, hplaces⟩
  | broker b => exact ⟨h.phase, hplaces⟩

theorem Stopped.reaches (h : Stopped held c) (hr : Reaches C MemoryStore.buffer c d) :
    Stopped held d := by
  induction hr with
  | refl => exact h
  | tail _ hs ih => exact ih.step hs

/-- What is missing then is what was held and what waits. -/
theorem Stopped.balance (h : Stopped held c) :
    (↑c.accepted + ↑c.replayed : Multiset Event) =
      ↑c.world.published + ↑c.world.store.events +
        (↑held + ↑(c.intake.queue.map Message.event)) := by
  ext a
  have hsum := h.places a
  simp only [Multiset.count_add, Multiset.coe_count]
  omega

theorem Stopped.losesAtMostOne_iff (h : Stopped held c) :
    c.close.LosesAtMostOne ↔ held.length + c.intake.queue.length ≤ 1 := by
  have hbalance := h.balance
  have hcard : (↑held + ↑(c.intake.queue.map Message.event) : Multiset Event).card =
      held.length + c.intake.queue.length := by
    rw [Multiset.card_add, Multiset.coe_card, Multiset.coe_card, List.length_map]
  constructor
  · rintro ⟨lost, hlost, hle⟩
    -- what is missing is no more than what may be missing
    have hmissing : (↑held + ↑(c.intake.queue.map Message.event) : Multiset Event) ≤ lost := by
      have hle' : (↑c.accepted + ↑c.replayed : Multiset Event) ≤
          ↑c.world.published + ↑c.world.store.events + lost := hle
      rw [hbalance] at hle'
      exact Multiset.add_le_add_iff_left.mp hle'
    have hcards := Multiset.card_le_card hmissing
    omega
  · intro hle
    refine ⟨↑held + ↑(c.intake.queue.map Message.event), by omega, ?_⟩
    exact le_of_eq hbalance

/-! ## How much may be lost -/

/-- What a courier holds is one event: nothing is received while an event is parked. -/
theorem Balanced.length_held_le (h : Balanced c) : c.courier.held.length ≤ 1 := by
  have hhand : c.courier.phase.inHand.length ≤ 1 := by
    cases hp : c.courier.phase with
    | delivering e d =>
      simp only [Phase.inHand]
      split
      · exact Nat.zero_le _
      · exact le_refl _
    | buffering e pass => exact le_refl _
    | idle | collecting | reading | replaying | committing | refreshing | stopped =>
      exact Nat.zero_le _
  by_cases hcarry : c.courier.phase.isCarrying = true
  · rw [Courier.held, h.single hcarry]
    exact hhand
  · have hnone : c.courier.phase.inHand = [] := by
      cases hp : c.courier.phase with
      | delivering e d => exact absurd (by rw [hp]; rfl) hcarry
      | buffering e pass => exact absurd (by rw [hp]; rfl) hcarry
      | idle | collecting | reading | replaying | committing | refreshing | stopped => rfl
    rw [Courier.held, hnone, List.append_nil]
    cases c.courier.parked with
    | none => exact Nat.zero_le _
    | some e => exact le_refl _

end Course

/-- No more events wait, or have been given a place, than there are places. -/
def Intake.IsBounded (i : Intake) : Prop :=
  i.queue.length + i.granted.length ≤ i.capacity

namespace Intake

variable {i i' : Intake} {m : Message}

theorem IsBounded.take (h : i.IsBounded) (ht : i.take = some (m, i')) :
    i'.IsBounded ∧ i'.capacity = i.capacity := by
  have hq := queue_of_take ht
  simp only [Intake.take, hq, Option.some.injEq, Prod.mk.injEq] at ht
  -- the place that becomes free is given away at most once
  have hgranted : i'.granted = i.granted ++ i.waiting.take 1 := by rw [← ht.2]
  have hcapacity : i'.capacity = i.capacity := by rw [← ht.2]
  refine ⟨?_, hcapacity⟩
  simp only [IsBounded, hq, hgranted, hcapacity, List.length_cons, List.length_append,
    List.length_take] at h ⊢
  omega

theorem IsBounded.submit (h : i.IsBounded) (m : Message) :
    (i.submit m).IsBounded ∧ (i.submit m).capacity = i.capacity := by
  by_cases hroom : i.hasRoom = true
  · have hlt : i.queue.length + i.granted.length < i.capacity := of_decide_eq_true hroom
    rw [Intake.submit, if_pos hroom]
    refine ⟨?_, rfl⟩
    simp only [IsBounded, List.length_append, List.length_singleton]
    omega
  · rw [Intake.submit, if_neg hroom]
    exact ⟨h, rfl⟩

theorem IsBounded.enter (h : i.IsBounded) (hm : m ∈ i.granted) : (i.enter m).IsBounded := by
  have hpos := List.length_pos_of_mem hm
  simp only [IsBounded, Intake.enter, List.length_append, List.length_singleton,
    List.length_erase_of_mem hm] at h ⊢
  omega

theorem IsBounded.giveBack (h : i.IsBounded) (hm : m ∈ i.granted) :
    (i.giveBack m).IsBounded := by
  have hpos := List.length_pos_of_mem hm
  simp only [IsBounded, Intake.giveBack, List.length_append, List.length_take,
    List.length_erase_of_mem hm] at h ⊢
  omega

/-- An intake stays bounded, and keeps its places. -/
theorem Change.bounded {receiving : Bool} (hc : Change receiving i i') (h : i.IsBounded) :
    i'.IsBounded ∧ i'.capacity = i.capacity := by
  cases hc with
  | take m i' hr ht => exact h.take ht
  | submit m => exact h.submit m
  | enter m hm => exact ⟨h.enter hm, rfl⟩
  | giveBack m hm => exact ⟨h.giveBack hm, rfl⟩
  | same | leave | producers => exact ⟨h, rfl⟩

end Intake

namespace Course

variable {C : Connector β} {B : Buffer σ} {c d : Course β σ}

theorem Step.bounded (hs : Step C B c d) (h : c.intake.IsBounded) :
    d.intake.IsBounded ∧ d.intake.capacity = c.intake.capacity :=
  hs.change.bounded h

theorem Reaches.bounded (hr : Reaches C B c d) (h : c.intake.IsBounded) :
    d.intake.IsBounded ∧ d.intake.capacity = c.intake.capacity := by
  induction hr with
  | refl => exact ⟨h, rfl⟩
  | tail _ hs ih =>
    obtain ⟨hbounded, hcapacity⟩ := hs.bounded ih.1
    exact ⟨hbounded, hcapacity.trans ih.2⟩

end Course

/-! ## The loss -/

/-- A relay over an empty store in memory is told to stop at `c`, before the call of its phase or when
that has been made and not answered yet, and ends at `d`. Of the events that were accepted, those that
it held and those that wait at `d` are neither published nor stored, and no others. So all but one are
published or stored exactly if these are not more than one. -/
theorem shutdown_loses_one_iff (C : Connector β) (maxAge : Nat) (counters : RelayCounters)
    (i : Intake) (broker : β) {m : MemoryStore} (hm : m.events = []) {c d : Course β MemoryStore}
    (hc : Course.Reaches C MemoryStore.buffer (.start maxAge counters i broker m) c) (made : Bool)
    (hd : Course.Reaches C MemoryStore.buffer (c.breakOff C MemoryStore.buffer made) d) :
    (↑d.accepted + ↑d.replayed : Multiset Event) =
        ↑d.close.world.published + ↑d.close.world.store.events +
          (↑(c.brokenAt C MemoryStore.buffer made).courier.held +
            ↑(d.intake.queue.map Message.event)) ∧
    (d.close.LosesAtMostOne ↔
      (c.brokenAt C MemoryStore.buffer made).courier.held.length + d.intake.queue.length ≤ 1) := by
  have hbalanced := (Course.balanced_start maxAge counters i broker hm).reaches (hc.brokenAt made)
  have hstopped := (hbalanced.breakOff made).reaches hd
  exact ⟨hstopped.balance, hstopped.losesAtMostOne_iff⟩

/-- An intake with so many places costs so many events and one more, at most. -/
theorem length_lost_le (C : Connector β) (maxAge : Nat) (counters : RelayCounters) (i : Intake)
    (hi : i.IsBounded) (broker : β) {m : MemoryStore} (hm : m.events = [])
    {c d : Course β MemoryStore}
    (hc : Course.Reaches C MemoryStore.buffer (.start maxAge counters i broker m) c) (made : Bool)
    (hd : Course.Reaches C MemoryStore.buffer (c.breakOff C MemoryStore.buffer made) d) :
    (c.brokenAt C MemoryStore.buffer made).courier.held.length + d.intake.queue.length ≤
      i.capacity + 1 := by
  have hbroken := hc.brokenAt made
  have hheld := ((Course.balanced_start maxAge counters i broker hm).reaches hbroken).length_held_le
  obtain ⟨hbounded, hcapacity⟩ := hbroken.bounded hi
  obtain ⟨hbounded', hcapacity'⟩ := hd.bounded hbounded
  have hplaces : i.capacity = d.intake.capacity := (hcapacity'.trans hcapacity).symm
  have hwaiting : d.intake.queue.length + d.intake.granted.length ≤ d.intake.capacity := hbounded'
  omega

namespace Course

/-- The first of two waiting events has been received. -/
def oneInHand : Course Nat MemoryStore :=
  { twoWaiting with
    courier := twoWaiting.courier.receive (.new "a")
    intake := ⟨2, [⟨1, .new "b"⟩], [], [], 1, false⟩ }

theorem reaches_oneInHand : Reaches quotaConnector MemoryStore.buffer twoWaiting oneInHand :=
  .single (.receive ⟨0, .new "a"⟩ _ rfl rfl rfl)

/-- The first has been stored during an outage, and the second one has been received. -/
def lastInHand : Course Nat MemoryStore :=
  { bufferNext twoWaiting with
    courier := (bufferNext twoWaiting).courier.receive (.new "b")
    intake := ⟨2, [], [], [], 1, false⟩ }

theorem reaches_lastInHand : Reaches quotaConnector MemoryStore.buffer twoWaiting lastInHand := by
  refine .head (.receive ⟨0, .new "a"⟩ _ rfl rfl rfl) ?_
  refine (reaches_calls _ _ 6 _).trans ?_
  exact .single (.receive ⟨1, .new "b"⟩ _ rfl rfl rfl)

/-- The second has failed too, and is about to be written. -/
def lastBuffered : Course Nat MemoryStore :=
  calls quotaConnector MemoryStore.buffer 5 lastInHand

theorem reaches_lastBuffered : Reaches quotaConnector MemoryStore.buffer twoWaiting lastBuffered :=
  reaches_lastInHand.trans (reaches_calls _ _ 5 _)

end Course

/-- The event in hand is lost, and the stored one is not. None is lost if the relay is told to stop later,
when the write of that event has been made and not answered yet. -/
theorem shutdown_loses_one_iff_lastInHand :
    (Course.lastInHand.stop quotaConnector MemoryStore.buffer).accepted = [.new "a", .new "b"] ∧
    (Course.lastInHand.stop quotaConnector MemoryStore.buffer).world.store.events = [.new "a"] ∧
    (Course.lastInHand.stop quotaConnector MemoryStore.buffer).close.LosesAtMostOne ∧
    Course.lastBuffered.world.store.events = [.new "a"] ∧
    (↑(Course.lastBuffered.breakOff quotaConnector MemoryStore.buffer true).accepted : Multiset Event) =
      ↑(Course.lastBuffered.breakOff quotaConnector MemoryStore.buffer
        true).close.world.store.events := by
  have hloss := shutdown_loses_one_iff quotaConnector 300 .zero _ 0 rfl
    Course.reaches_lastInHand false .refl
  have hkept := shutdown_loses_one_iff quotaConnector 300 .zero _ 0 rfl
    Course.reaches_lastBuffered true .refl
  refine ⟨by decide, by decide, hloss.2.mpr (by decide), by decide, ?_⟩
  have hreplayed : (Course.lastBuffered.breakOff quotaConnector MemoryStore.buffer true).replayed =
      [] := by decide
  have hnone : (Course.lastBuffered.brokenAt quotaConnector MemoryStore.buffer true).courier.held =
      [] := by decide
  have hempty : (Course.lastBuffered.breakOff quotaConnector MemoryStore.buffer true).intake.queue =
      [] := by decide
  have hunsent : (Course.lastBuffered.breakOff quotaConnector MemoryStore.buffer
      true).close.world.published = [] := by decide
  have hbalance := hkept.1
  rw [hreplayed, hnone, hempty, hunsent] at hbalance
  simpa using hbalance

/-- Two events are accepted, and the relay is told to stop when it has received the first. Neither is
published or stored, so two events are lost. -/
theorem waiting_event_lost :
    Course.Reaches quotaConnector MemoryStore.buffer Course.twoWaiting Course.oneInHand ∧
    (Course.oneInHand.stop quotaConnector MemoryStore.buffer).accepted =
      [.new "a", .new "b"] ∧
    (Course.oneInHand.stop quotaConnector MemoryStore.buffer).close.world.published = [] ∧
    (Course.oneInHand.stop quotaConnector MemoryStore.buffer).close.world.store.events = [] ∧
    ¬ (Course.oneInHand.stop quotaConnector MemoryStore.buffer).close.LosesAtMostOne := by
  have hbalanced : Course.oneInHand.Balanced :=
    (Course.balanced_start 300 .zero _ 0 rfl).reaches Course.reaches_oneInHand
  have hstopped : Course.Stopped Course.oneInHand.courier.held
      (Course.oneInHand.stop quotaConnector MemoryStore.buffer) :=
    Course.Balanced.breakOff (C := quotaConnector) false hbalanced
  refine ⟨Course.reaches_oneInHand, by decide, by decide, by decide, ?_⟩
  rw [hstopped.losesAtMostOne_iff]
  decide

end AuditRelay
