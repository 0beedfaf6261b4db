import AuditRelay.Broker.Local
import AuditRelay.Proofs.Broker.Calls
import AuditRelay.Proofs.Relay.Course
import Mathlib.Logic.Function.Iterate

/-!
# AuditRelay.Proofs.Broker.Line — the connections of a link, one after the other

`Line.Step` is one step of a link at work. Publications and disconnects come in any order, and between
any two stages of a publication the broker may close connections, come or go, and time may pass.

* The calls are in order along every run (`Line.Sound.orderly`).
* `Publication.Sound` is what the calls of one publication have to do with its answer.
* `Line.IsRecorded` is what a broker that keeps a record has recorded by then.

Together they make `link_keeps_one_connection`.
-/

namespace AuditRelay

variable {σ : Type}

/-! ## A link at work -/

/-- What is found of the connection that a link holds when it is about to publish. -/
structure Check where
  connection : Nat
  closed : Bool
  age : Nat
  deriving DecidableEq, Repr

def Link.check (C : Connector σ) (l : Link) (b : σ) : Option Check :=
  l.held.map fun c => ⟨c, C.isClosed c b, C.age c b⟩

/-- A publication under way. -/
structure Errand (σ : Type) where
  event : Event
  stage : Delivery
  /-- How many calls had been noted when it began. -/
  start : Nat
  check : Option Check
  /-- The broker as it was when the publication began. -/
  before : σ

/-- A publication that has come to its end. -/
structure Publication (σ : Type) where
  event : Event
  calls : List Call
  check : Option Check
  answer : Except Fault Unit
  /-- The connection that the link holds afterwards. -/
  held : Option Nat
  before : σ
  after : σ

/-- A link, the broker it works on, and the publications that have come to their end. -/
structure Line (σ : Type) where
  link : Link
  world : Noted σ
  errand : Option (Errand σ)
  done : List (Publication σ)

namespace Line

/-- A new link. -/
def start (maxAge : Nat) (b : σ) : Line σ :=
  ⟨⟨maxAge, none⟩, ⟨b, []⟩, none, []⟩

/-- A publication begins. -/
def call (s : Line σ) (e : Event) : Line σ :=
  { s with errand := some ⟨e, .checking, s.world.calls.length, none, s.world.broker⟩ }

/-- The publication comes one stage further. -/
def stage (C : Connector σ) (s : Line σ) (a : Errand σ) : Line σ :=
  { s with
    link := (s.link.step (Noted.connector C) a.event s.world a.stage).2.1
    world := (s.link.step (Noted.connector C) a.event s.world a.stage).2.2
    errand := some { a with
      stage := (s.link.step (Noted.connector C) a.event s.world a.stage).1
      check := if a.stage = .checking then s.link.check C s.world.broker else a.check } }

/-- The publication comes to its end. -/
def answer (s : Line σ) (a : Errand σ) (r : Except Fault Unit) : Line σ :=
  { s with
    errand := none
    done := s.done ++
      [⟨a.event, s.world.calls.drop a.start, a.check, r, s.link.held, a.before, s.world.broker⟩] }

/-- The link is told to disconnect. -/
def disconnect (C : Connector σ) (s : Line σ) : Line σ :=
  { s with
    link := (s.link.disconnect (Noted.connector C) s.world).1
    world := (s.link.disconnect (Noted.connector C) s.world).2 }

/-- Something happens to the broker by itself. -/
def moved (s : Line σ) (b : σ) : Line σ :=
  { s with world := { s.world with broker := b } }

/-- One step of a link at work. Anything can happen to the broker between two publications, and what
`Moves` admits at any time. -/
inductive Step (C : Connector σ) (Moves : σ → σ → Prop) (s : Line σ) : Line σ → Prop where
  | call (e : Event) (h : s.errand = none) : Step C Moves s (s.call e)
  | stage (a : Errand σ) (h : s.errand = some a) (ha : a.stage.result? = none) :
      Step C Moves s (s.stage C a)
  | answer (a : Errand σ) (r : Except Fault Unit) (h : s.errand = some a)
      (ha : a.stage.result? = some r) : Step C Moves s (s.answer a r)
  | disconnect (h : s.errand = none) : Step C Moves s (s.disconnect C)
  | between (b : σ) (h : s.errand = none) : Step C Moves s (s.moved b)
  | meanwhile (b : σ) (h : Moves s.world.broker b) : Step C Moves s (s.moved b)

/-- A link at work can come from one state to another. -/
abbrev Reaches (C : Connector σ) (Moves : σ → σ → Prop) : Line σ → Line σ → Prop :=
  Relation.ReflTransGen (Step C Moves)

end Line

/-- After a disconnect no connection is held. -/
theorem Line.disconnect_held (C : Connector σ) (s : Line σ) : (s.disconnect C).link.held = none := by
  cases hheld : s.link.held with
  | none => simp only [disconnect, Link.disconnect, hheld]
  | some c => simp only [disconnect, Link.disconnect, hheld]

/-- The one that was held is disconnected. -/
theorem Line.disconnect_calls (C : Connector σ) (s : Line σ) :
    (s.disconnect C).world.calls = s.world.calls ++ (s.link.held.map Call.disconnect).toList := by
  cases hheld : s.link.held with
  | none => simp [disconnect, Link.disconnect, hheld]
  | some c => simp [disconnect, Link.disconnect, hheld, Noted.connector, Noted.note]

/-! ## What the calls of a publication have to do with its answer -/

section

variable {maxAge : Nat} {calls new : List Call} {check : Option Check} {c : Nat}

/-- A connection that was opened by one of the calls, or was open and young enough at the check. -/
def MayCarry (maxAge : Nat) (calls : List Call) (check : Option Check) (c : Nat) : Prop :=
  .connect (some c) ∈ calls ∨ ∃ age < maxAge, check = some ⟨c, false, age⟩

theorem MayCarry.append (h : MayCarry maxAge calls check c) (new : List Call) :
    MayCarry maxAge (calls ++ new) check c :=
  h.imp_left (List.mem_append_left new)

/-- The calls that a publication under way has made so far. -/
structure Errand.Sound (maxAge : Nat) (held : Option Nat) (calls : List Call) (a : Errand σ) :
    Prop where
  holds : a.stage.Holds held
  connects : calls.countP Call.isConnect + a.stage.connectsLeft ≤ 1
  publishes : calls.countP Call.isPublish + a.stage.publishesLeft ≤ 1
  ready : ∀ c, a.stage = .publishing c → MayCarry maxAge calls a.check c
  carried : ∀ c e accepted, .publish c e accepted ∈ calls →
    e = a.event ∧ MayCarry maxAge calls a.check c
  accepted : (∃ c e, .publish c e true ∈ calls) ↔ a.stage = .done none

/-- The calls that a publication has made, and its answer. -/
structure Publication.Sound (maxAge : Nat) (p : Publication σ) : Prop where
  connects : p.calls.countP Call.isConnect ≤ 1
  publishes : p.calls.countP Call.isPublish ≤ 1
  carried : ∀ c e accepted, .publish c e accepted ∈ p.calls →
    e = p.event ∧ MayCarry maxAge p.calls p.check c
  accepted : p.answer = .ok () ↔ ∃ c e, .publish c e true ∈ p.calls
  failed : ∀ f, p.answer = .error f → p.held = none

end

namespace Errand.Sound

variable {C : Connector σ} {l l' : Link} {b b' : σ} {d' : Delivery} {calls new : List Call}
  {a : Errand σ} {maxAge : Nat}

theorem start (maxAge : Nat) (held : Option Nat) (e : Event) (n : Nat) (b : σ) :
    Sound maxAge held [] ⟨e, .checking, n, none, b⟩ where
  holds := trivial
  connects := Nat.le_refl 1
  publishes := Nat.le_refl 1
  ready c hc := by cases hc
  carried c e accepted hm := absurd hm List.not_mem_nil
  accepted := ⟨fun ⟨_, _, hm⟩ => absurd hm List.not_mem_nil, fun h => by cases h⟩

/-- Before the check nothing has been published. -/
theorem not_published (h : Sound maxAge l.held calls a) (hc : a.stage = .checking) {c : Nat}
    {e : Event} {accepted : Bool} : .publish c e accepted ∉ calls := by
  intro hm
  have hpos : 0 < calls.countP Call.isPublish := List.countP_pos_iff.mpr ⟨_, hm, rfl⟩
  have hle := h.publishes
  rw [hc] at hle
  simp only [Delivery.publishesLeft] at hle
  omega

theorem stage (h : Sound maxAge l.held calls a) (hl : l.maxAge = maxAge)
    (hs : l.Stage C a.event b a.stage d' l' b' new) :
    Sound maxAge l'.held (calls ++ new)
      { a with stage := d', check := if a.stage = .checking then l.check C b else a.check } where
  holds := hs.holds h.holds
  connects := by
    have hle := hs.connects_le
    have hsum := h.connects
    rw [List.countP_append]
    dsimp only
    omega
  publishes := by
    have hle := hs.publishes_le
    have hsum := h.publishes
    rw [List.countP_append]
    dsimp only
    omega
  ready c hc := by
    obtain rfl : d' = .publishing c := hc
    rcases hs.of_publishing with hnew | ⟨hd, hheld, hopen, hage⟩
    · exact .inl (List.mem_append_right calls hnew)
    · refine .inr ⟨C.age c b, hl ▸ hage, ?_⟩
      simp only [if_pos hd, Link.check, hheld, Option.map_some, hopen]
  carried c e accepted hm := by
    rcases List.mem_append.mp hm with hold | hnew
    · have hd : a.stage ≠ .checking := fun hd => h.not_published hd hold
      obtain ⟨he, hc⟩ := h.carried c e accepted hold
      simp only [if_neg hd]
      exact ⟨he, hc.append new⟩
    · obtain ⟨hd, he, -⟩ := hs.of_publish_mem hnew
      have hcheck : a.stage ≠ .checking := by
        rw [hd]
        exact fun hc => by cases hc
      simp only [if_neg hcheck]
      exact ⟨he, (h.ready c hd).append new⟩
  accepted := by
    constructor
    · rintro ⟨c, e, hm⟩
      rcases List.mem_append.mp hm with hold | hnew
      · -- a delivery that is done does not come any further
        rw [h.accepted.mp ⟨c, e, hold⟩] at hs
        cases hs
      · exact (hs.of_publish_mem hnew).2.2.mp rfl
    · rintro rfl
      obtain ⟨c, hm⟩ := hs.accepted_mem
      exact ⟨c, a.event, List.mem_append_right calls hm⟩

/-- What is true of a publication at its last stage is true of it afterwards. -/
theorem answer {r : Except Fault Unit} (h : Sound maxAge l.held calls a)
    (hr : a.stage.result? = some r) (b : σ) :
    Publication.Sound maxAge ⟨a.event, calls, a.check, r, l.held, a.before, b⟩ where
  connects := Nat.le_of_add_right_le h.connects
  publishes := Nat.le_of_add_right_le h.publishes
  carried := h.carried
  accepted := by
    rw [h.accepted]
    rcases Delivery.eq_done_of_result? hr with ⟨rfl, hd⟩ | ⟨f, rfl, hd⟩
    · exact ⟨fun _ => hd, fun _ => rfl⟩
    · rw [hd]
      exact ⟨fun h => (nomatch h), fun h => (nomatch h)⟩
  failed f hf := by
    have hholds := h.holds
    rcases Delivery.eq_done_of_result? hr with ⟨rfl, hd⟩ | ⟨g, rfl, hd⟩
    · cases hf
    · rw [hd] at hholds
      exact hholds

end Errand.Sound

/-! ## What a run keeps to -/

namespace Line

variable {C : Connector σ} {Moves : σ → σ → Prop} {s t : Line σ} {maxAge : Nat}

/-- The connection that is live. -/
def live (s : Line σ) : Option Nat :=
  match s.errand with
  | none => s.link.held
  | some a => a.stage.live s.link.held

structure Sound (maxAge : Nat) (s : Line σ) : Prop where
  maxAge_eq : s.link.maxAge = maxAge
  orderly : Orderly none s.world.calls s.live
  start_le : ∀ a, s.errand = some a → a.start ≤ s.world.calls.length
  errand : ∀ a, s.errand = some a →
    a.Sound maxAge s.link.held (s.world.calls.drop a.start)
  done : ∀ p ∈ s.done, p.Sound maxAge

namespace Sound

theorem start (maxAge : Nat) (b : σ) : Sound maxAge (start maxAge b) where
  maxAge_eq := rfl
  orderly := .nil none
  start_le a ha := by cases ha
  errand a ha := by cases ha
  done p hp := absurd hp List.not_mem_nil

theorem orderly_idle (h : Sound maxAge s) (hnone : s.errand = none) :
    Orderly none s.world.calls s.link.held := by
  have ho := h.orderly
  rwa [live, hnone] at ho

theorem orderly_busy {a : Errand σ} (h : Sound maxAge s) (ha : s.errand = some a) :
    Orderly none s.world.calls (a.stage.live s.link.held) := by
  have ho := h.orderly
  rwa [live, ha] at ho

theorem call (h : Sound maxAge s) (e : Event) (hnone : s.errand = none) :
    Sound maxAge (s.call e) where
  maxAge_eq := h.maxAge_eq
  orderly := h.orderly_idle hnone
  start_le a ha := by
    obtain rfl := Option.some.inj ha
    exact Nat.le_refl _
  errand a ha := by
    obtain rfl := Option.some.inj ha
    simp only [Line.call, List.drop_length]
    exact .start maxAge _ e _ _
  done := h.done

theorem stage {a : Errand σ} (h : Sound maxAge s) (ha : s.errand = some a)
    (hd : a.stage.result? = none) : Sound maxAge (s.stage C a) := by
  obtain ⟨new, hcalls, hs⟩ := Link.step_stage C a.event s.link s.world hd
  have hsound := h.errand a ha
  have hle := h.start_le a ha
  have hdrop : (s.stage C a).world.calls.drop a.start = s.world.calls.drop a.start ++ new := by
    rw [Line.stage, hcalls, List.drop_append_of_le_length hle]
  constructor
  · exact hs.maxAge_eq.trans h.maxAge_eq
  · rw [Line.stage, hcalls]
    exact (h.orderly_busy ha).append (hs.orderly hsound.holds)
  · intro a' ha'
    obtain rfl := Option.some.inj ha'
    rw [Line.stage, hcalls, List.length_append]
    exact Nat.le_add_right_of_le hle
  · intro a' ha'
    obtain rfl := Option.some.inj ha'
    rw [hdrop]
    exact hsound.stage h.maxAge_eq hs
  · exact h.done

theorem answer {a : Errand σ} {r : Except Fault Unit} (h : Sound maxAge s)
    (ha : s.errand = some a) (hr : a.stage.result? = some r) : Sound maxAge (s.answer a r) where
  maxAge_eq := h.maxAge_eq
  orderly := by
    have ho := h.orderly_busy ha
    rcases Delivery.eq_done_of_result? hr with ⟨-, hd⟩ | ⟨f, -, hd⟩
    · rw [hd] at ho
      exact ho
    · rw [hd] at ho
      exact ho
  start_le a' ha' := by cases ha'
  errand a' ha' := by cases ha'
  done p hp := by
    rcases List.mem_append.mp hp with hold | hnew
    · exact h.done p hold
    · obtain rfl := List.mem_singleton.mp hnew
      exact (h.errand a ha).answer hr _

theorem disconnect (h : Sound maxAge s) (hnone : s.errand = none) :
    Sound maxAge (s.disconnect C) := by
  have ho := h.orderly_idle hnone
  cases hheld : s.link.held with
  | none =>
    have hsame : s.disconnect C = s := by
      simp only [Line.disconnect, Link.disconnect, hheld]
    rw [hsame]
    exact h
  | some c =>
    rw [hheld] at ho
    constructor
    · simp only [Line.disconnect, Link.disconnect, hheld]
      exact h.maxAge_eq
    · simp only [Line.disconnect, Link.disconnect, hheld, live, hnone]
      exact ho.append (.closed c (.nil none))
    · intro a ha
      cases hnone.symm.trans ha
    · intro a ha
      cases hnone.symm.trans ha
    · exact h.done

theorem moved (h : Sound maxAge s) (b : σ) : Sound maxAge (s.moved b) :=
  ⟨h.maxAge_eq, h.orderly, h.start_le, h.errand, h.done⟩

theorem step (h : Sound maxAge s) (hs : Step C Moves s t) : Sound maxAge t := by
  cases hs with
  | call e hnone => exact h.call e hnone
  | stage a ha hd => exact h.stage ha hd
  | answer a r ha hr => exact h.answer ha hr
  | disconnect hnone => exact h.disconnect hnone
  | between b hnone => exact h.moved b
  | meanwhile b hb => exact h.moved b

theorem reaches (h : Sound maxAge s) (hr : Reaches C Moves s t) : Sound maxAge t := by
  induction hr with
  | refl => exact h
  | tail _ hs ih => exact ih.step hs

/-- After a disconnect no connection is live: each was given up as often as it was opened. -/
theorem count_disconnected (h : Sound maxAge s) (hnone : s.errand = none) (c : Nat) :
    (s.disconnect C).world.calls.count (.connect (some c)) =
      (s.disconnect C).world.calls.count (.disconnect c) := by
  have hcount := ((h.disconnect (C := C) hnone).orderly_idle hnone).count_eq c
  rwa [disconnect_held, if_neg (Option.some_ne_none c).symm, Nat.add_zero] at hcount

end Sound

end Line

/-! ## A broker that keeps a record -/

/-- A broker that records an event when it accepts it, and nothing else. -/
structure Connector.Records (C : Connector σ) (record : σ → List Event) : Prop where
  connect : ∀ b, record (C.connect b).2 = record b
  disconnect : ∀ c b, record (C.disconnect c b) = record b
  accepted : ∀ {c e b b'}, C.publish c e b = (.ok (), b') → record b' = record b ++ [e]
  failed : ∀ {c e f b b'}, C.publish c e b = (.error f, b') → record b' = record b

section

variable {C : Connector σ} {record : σ → List Event} {Moves : σ → σ → Prop}

theorem Link.Stage.record_eq {e : Event} {l l' : Link} {b b' : σ} {d d' : Delivery}
    {calls : List Call} (h : l.Stage C e b d d' l' b' calls) (hC : C.Records record) :
    record b' = record b ++ if d'.isPublished then [e] else [] := by
  have hsame : ∀ x : σ, record x = record x ++ [] := fun x => (List.append_nil _).symm
  cases h with
  | missing | stale | usable => exact hsame b
  | released c | discarded c f => exact (hC.disconnect c b).trans (hsame b)
  | refused f b' h | opened c b' h =>
    have hconnect := hC.connect b
    rw [h] at hconnect
    exact hconnect.trans (hsame b)
  | accepted c b' h => exact hC.accepted h
  | failed c f b' h => exact (hC.failed h).trans (hsame b)

/-- The event of a publication is recorded once, if the answer is favourable, and nothing is if it is
not. -/
def Publication.IsRecorded (record : σ → List Event) (p : Publication σ) : Prop :=
  (p.answer = .ok () → record p.after = record p.before ++ [p.event]) ∧
    ∀ f, p.answer = .error f → record p.after = record p.before

/-- What the broker has recorded since the publication under way began, and by those before it. -/
structure Line.IsRecorded (record : σ → List Event) (s : Line σ) : Prop where
  errand : ∀ a, s.errand = some a →
    record s.world.broker = record a.before ++ if a.stage.isPublished then [a.event] else []
  done : ∀ p ∈ s.done, p.IsRecorded record

namespace Line.IsRecorded

variable {s t : Line σ}

theorem start (record : σ → List Event) (maxAge : Nat) (b : σ) :
    IsRecorded record (Line.start maxAge b) where
  errand a ha := by cases ha
  done p hp := absurd hp List.not_mem_nil

theorem stage {a : Errand σ} (h : IsRecorded record s) (hC : C.Records record)
    (ha : s.errand = some a) (hd : a.stage.result? = none) : IsRecorded record (s.stage C a) where
  errand a' ha' := by
    obtain rfl := Option.some.inj ha'
    obtain ⟨new, -, hs⟩ := Link.step_stage C a.event s.link s.world hd
    have hbefore := h.errand a ha
    rw [Delivery.isPublished_of_result? hd, if_neg Bool.false_ne_true, List.append_nil] at hbefore
    rw [← hbefore]
    exact hs.record_eq hC
  done := h.done

theorem answer {a : Errand σ} {r : Except Fault Unit} (h : IsRecorded record s)
    (ha : s.errand = some a) (hr : a.stage.result? = some r) :
    IsRecorded record (s.answer a r) where
  errand a' ha' := by cases ha'
  done p hp := by
    rcases List.mem_append.mp hp with hold | hnew
    · exact h.done p hold
    · obtain rfl := List.mem_singleton.mp hnew
      have hrecord := h.errand a ha
      rcases Delivery.eq_done_of_result? hr with ⟨rfl, hd⟩ | ⟨f, rfl, hd⟩
      · rw [hd] at hrecord
        exact ⟨fun _ => hrecord, fun g hg => (nomatch hg)⟩
      · rw [hd] at hrecord
        exact ⟨fun hok => (nomatch hok), fun g _ => hrecord.trans (List.append_nil _)⟩

theorem step (h : IsRecorded record s) (hC : C.Records record)
    (hM : ∀ b b', Moves b b' → record b' = record b) (hs : Step C Moves s t) :
    IsRecorded record t := by
  cases hs with
  | call e hnone =>
    refine ⟨fun a ha => ?_, h.done⟩
    obtain rfl := Option.some.inj ha
    exact (List.append_nil _).symm
  | stage a ha hd => exact h.stage hC ha hd
  | answer a r ha hr => exact h.answer ha hr
  | disconnect hnone => exact ⟨fun a ha => (nomatch hnone.symm.trans ha), h.done⟩
  | between b hnone => exact ⟨fun a ha => (nomatch hnone.symm.trans ha), h.done⟩
  | meanwhile b hb => exact ⟨fun a ha => (hM _ _ hb).trans (h.errand a ha), h.done⟩

theorem reaches (h : IsRecorded record s) (hC : C.Records record)
    (hM : ∀ b b', Moves b b' → record b' = record b) (hr : Reaches C Moves s t) :
    IsRecorded record t := by
  induction hr with
  | refl => exact h
  | tail _ hs ih => exact ih.step hC hM hs

end Line.IsRecorded

end

namespace LocalBroker

/-- The broker in memory with a clock, as links see it. -/
def connector (queue : String) : Connector (LocalBroker × Nat) where
  connect w := ((w.1.connect queue w.2).1, (w.1.connect queue w.2).2, w.2)
  isClosed c w := w.1.isClosed c
  age c w := w.1.age c w.2
  publish c e w := ((w.1.publish c e).1, (w.1.publish c e).2, w.2)
  disconnect c w := (w.1.disconnect c, w.2)

theorem published_connect (b : LocalBroker) (queue : String) (now : Nat) :
    (b.connect queue now).2.published = b.published := by
  unfold connect
  split
  · rfl
  · rfl

theorem published_publish (b : LocalBroker) (c : Nat) (e : Event) :
    ((b.publish c e).1 = .ok () ∧ (b.publish c e).2.published = b.published ++ [e]) ∨
      ∃ f, (b.publish c e).1 = .error f ∧ (b.publish c e).2.published = b.published := by
  unfold publish
  split
  · exact .inr ⟨_, rfl, rfl⟩
  · split
    · exact .inr ⟨_, rfl, rfl⟩
    · split
      · exact .inr ⟨_, rfl, rfl⟩
      · exact .inl ⟨rfl, rfl⟩

theorem records (queue : String) : (connector queue).Records fun w => w.1.published where
  connect w := published_connect w.1 queue w.2
  disconnect _ _ := rfl
  accepted {c e w w'} h := by
    obtain ⟨hanswer, hafter⟩ := Prod.mk.inj h
    obtain rfl := hafter
    rcases published_publish w.1 c e with ⟨-, hp⟩ | ⟨f, hf, -⟩
    · exact hp
    · cases hf.symm.trans hanswer
  failed {c e f w w'} h := by
    obtain ⟨hanswer, hafter⟩ := Prod.mk.inj h
    obtain rfl := hafter
    rcases published_publish w.1 c e with ⟨hok, -⟩ | ⟨g, -, hp⟩
    · cases hok.symm.trans hanswer
    · exact hp

end LocalBroker

/-! ## Whole publications -/

namespace Line

variable {C : Connector σ} {Moves : σ → σ → Prop} {s : Line σ}

/-- The publication under way comes one step further. -/
def advance (C : Connector σ) (s : Line σ) : Line σ :=
  match s.errand with
  | none => s
  | some a =>
    match a.stage.result? with
    | none => s.stage C a
    | some r => s.answer a r

/-- A publication from its beginning to its end. -/
def publish (C : Connector σ) (e : Event) (s : Line σ) : Line σ :=
  (advance C)^[6] (s.call e)

theorem reaches_advance (n : Nat) (s : Line σ) : Reaches C Moves s ((advance C)^[n] s) := by
  induction n generalizing s with
  | zero => exact .refl
  | succ n ih =>
    cases ha : s.errand with
    | none =>
      rw [Function.iterate_succ_apply, show advance C s = s by rw [advance, ha]]
      exact ih s
    | some a =>
      rw [Function.iterate_succ_apply]
      refine .head ?_ (ih _)
      cases hr : a.stage.result? with
      | none =>
        rw [show advance C s = s.stage C a by simp only [advance, ha, hr]]
        exact .stage a ha hr
      | some r =>
        rw [show advance C s = s.answer a r by simp only [advance, ha, hr]]
        exact .answer a r ha hr

theorem Reaches.publish (e : Event) (h : s.errand = none) : Reaches C Moves s (s.publish C e) :=
  .head (.call e h) (reaches_advance 6 _)

theorem iterate_advance_of_idle (n : Nat) (h : s.errand = none) : (advance C)^[n] s = s := by
  refine Function.iterate_fixed ?_ n
  rw [advance, h]

/-- A delivery is taken to its end in as many steps as it has stages left, and one. -/
theorem iterate_advance {a : Errand σ} (n : Nat) (ha : s.errand = some a)
    (hn : a.stage.remaining < n) :
    ((advance C)^[n] s).errand = none ∧
    (((advance C)^[n] s).link, ((advance C)^[n] s).world) =
      (s.link.run (Noted.connector C) a.event s.world a.stage).2 ∧
    ∃ p, ((advance C)^[n] s).done = s.done ++ [p] ∧ p.event = a.event ∧
      p.answer = (s.link.run (Noted.connector C) a.event s.world a.stage).1 := by
  induction n generalizing s a with
  | zero => exact absurd hn (Nat.not_lt_zero _)
  | succ n ih =>
    rw [Function.iterate_succ_apply]
    cases hr : a.stage.result? with
    | some r =>
      rw [show advance C s = s.answer a r by simp only [advance, ha, hr],
        iterate_advance_of_idle n rfl, Link.run_of_result? hr]
      exact ⟨rfl, rfl, _, rfl, rfl, rfl⟩
    | none =>
      rw [show advance C s = s.stage C a by simp only [advance, ha, hr], Link.run_step hr]
      have hlt := Link.remaining_step (Noted.connector C) a.event s.link s.world a.stage
        (Delivery.remaining_ne_zero hr)
      have hle := Nat.le_of_lt_succ hn
      exact ih (s := s.stage C a) rfl (Nat.lt_of_lt_of_le hlt hle)

/-- What a publication over a link does is what a run does that nothing interferes with. -/
theorem publish_eq (C : Connector σ) (e : Event) (s : Line σ) :
    (s.publish C e).errand = none ∧
    ((s.publish C e).link, (s.publish C e).world) =
      (s.link.publish (Noted.connector C) e s.world).2 ∧
    ∃ p, (s.publish C e).done = s.done ++ [p] ∧ p.event = e ∧
      p.answer = (s.link.publish (Noted.connector C) e s.world).1 :=
  iterate_advance (s := s.call e) 6 rfl (Nat.lt_succ_self 5)

end Line

/-! ## One connection at most -/

/-- A link at work on any broker. A publication asks for one connection at most and sends its event
out once at most, over a connection that it has opened or that was open and young enough at the check;
it succeeds exactly if the event was accepted, and if it fails the link holds no connection
afterwards. What is published goes over the connection opened last, which has not been given up. Every
connection is given up exactly once before another is asked for, so that at most one is live, and
between two publications this is the one the link holds. If the link is told to disconnect then, it
disconnects the one it holds, and holds none. Over a broker in memory, which records nothing else
meanwhile, a publication that succeeds has its event recorded once, and one that fails has nothing
recorded. -/
theorem link_keeps_one_connection (maxAge : Nat) :
    (∀ (C : Connector σ) (Moves : σ → σ → Prop) (b : σ) (s : Line σ),
      Line.Reaches C Moves (.start maxAge b) s →
      (∀ p ∈ s.done,
        p.calls.countP Call.isConnect ≤ 1 ∧ p.calls.countP Call.isPublish ≤ 1 ∧
        (∀ c e accepted, .publish c e accepted ∈ p.calls →
          e = p.event ∧ (.connect (some c) ∈ p.calls ∨
            ∃ age < maxAge, p.check = some ⟨c, false, age⟩)) ∧
        (p.answer = .ok () ↔ ∃ c e, .publish c e true ∈ p.calls) ∧
        (∀ f, p.answer = .error f → p.held = none)) ∧
      (∀ earlier c e accepted later,
        s.world.calls = earlier ++ .publish c e accepted :: later →
        ∃ first since, earlier = first ++ .connect (some c) :: since ∧
          ∀ d ∈ since, d.isPublish = true) ∧
      (∀ earlier opened later, s.world.calls = earlier ++ .connect opened :: later →
        ∀ c, earlier.count (.connect (some c)) = earlier.count (.disconnect c)) ∧
      (s.errand = none →
        (s.disconnect C).link.held = none ∧
        (s.disconnect C).world.calls =
          s.world.calls ++ (s.link.held.map Call.disconnect).toList ∧
        ∀ c, (s.disconnect C).world.calls.count (.connect (some c)) =
          (s.disconnect C).world.calls.count (.disconnect c)) ∧
      ∃ live : Option Nat, (s.errand = none → live = s.link.held) ∧
        ∀ c, s.world.calls.count (.connect (some c)) =
          s.world.calls.count (.disconnect c) + if live = some c then 1 else 0) ∧
    ∀ (queue : String) (Moves : LocalBroker × Nat → LocalBroker × Nat → Prop)
      (w : LocalBroker × Nat) (s : Line (LocalBroker × Nat)),
      (∀ v v', Moves v v' → v'.1.published = v.1.published) →
      Line.Reaches (LocalBroker.connector queue) Moves (.start maxAge w) s → ∀ p ∈ s.done,
        (p.answer = .ok () → p.after.1.published = p.before.1.published ++ [p.event]) ∧
        (∀ f, p.answer = .error f → p.after.1.published = p.before.1.published) := by
  constructor
  · intro C Moves b s hr
    have hsound := (Line.Sound.start maxAge b).reaches hr
    refine ⟨?_, ?_, ?_, fun hnone => ⟨s.disconnect_held C, s.disconnect_calls C,
      hsound.count_disconnected hnone⟩, s.live, ?_, ?_⟩
    · intro p hp
      obtain ⟨hconnects, hpublishes, hcarried, haccepted, hfailed⟩ := hsound.done p hp
      exact ⟨hconnects, hpublishes, hcarried, haccepted, hfailed⟩
    · intro earlier c e accepted later heq
      have horderly := hsound.orderly
      rw [heq] at horderly
      exact horderly.opened_of_publish
    · intro earlier opened later heq
      have horderly := hsound.orderly
      rw [heq] at horderly
      exact horderly.count_eq_of_connect
    · intro hnone
      rw [Line.live, hnone]
    · exact hsound.orderly.count_eq
  · intro queue Moves w s hM hr
    exact ((Line.IsRecorded.start _ maxAge w).reaches (LocalBroker.records queue) hM hr).done

namespace Line

/-- A broker in memory with its clock. -/
def quiet : LocalBroker × Nat :=
  (⟨16, true, 0, [], []⟩, 0)

/-- An event is published, and the broker closes the connection. -/
def closedOnce : Line (LocalBroker × Nat) :=
  let s := (start 300 quiet).publish (LocalBroker.connector "audit") (.new "a")
  s.moved (s.world.broker.1.closeConnections, 10)

/-- A second event is published over a new connection, the broker goes away, and a third event is
refused. -/
def refusedOnce : Line (LocalBroker × Nat) :=
  let s := closedOnce.publish (LocalBroker.connector "audit") (.new "b")
  (s.moved ({ s.world.broker.1 with available := false }, 20)).publish
    (LocalBroker.connector "audit") (.new "c")

theorem reaches_refusedOnce :
    Reaches (LocalBroker.connector "audit") Eq (start 300 quiet) refusedOnce := by
  have hclosed : Reaches (LocalBroker.connector "audit") Eq (start 300 quiet) closedOnce :=
    (Reaches.publish (.new "a") rfl).tail (.between _ (by decide))
  refine hclosed.trans ?_
  exact ((Reaches.publish (.new "b") (by decide)).tail (.between _ (by decide))).trans
    (Reaches.publish (.new "c") (by decide))

end Line

/-- Two of three events are published, each over a connection of its own; the third is not recorded,
and no connection is left. -/
theorem link_keeps_one_connection_refusedOnce :
    Line.refusedOnce.world.calls =
      [.connect (some 0), .publish 0 (.new "a") true, .disconnect 0,
        .connect (some 1), .publish 1 (.new "b") true, .publish 1 (.new "c") false,
        .disconnect 1] ∧
    (∀ c, Line.refusedOnce.world.calls.count (.connect (some c)) =
      Line.refusedOnce.world.calls.count (.disconnect c)) ∧
    Line.refusedOnce.world.broker.1.published = [.new "a", .new "b"] ∧
    ∀ p ∈ Line.refusedOnce.done, ∀ f, p.answer = .error f →
      p.after.1.published = p.before.1.published := by
  have hdiscipline := @link_keeps_one_connection (LocalBroker × Nat) 300
  obtain ⟨-, -, -, -, live, hidle, hcount⟩ := hdiscipline.1 _ _ _ _ Line.reaches_refusedOnce
  have hnone : live = none := by
    rw [hidle (by decide)]
    decide
  refine ⟨by decide, fun c => ?_, by decide, fun p hp => ?_⟩
  · rw [hcount c, hnone]
    exact Nat.add_zero _
  · exact (hdiscipline.2 "audit" Eq _ _ (fun v v' h => by rw [h]) Line.reaches_refusedOnce p hp).2

end AuditRelay
