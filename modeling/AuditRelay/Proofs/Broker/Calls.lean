import AuditRelay.Broker.Link

/-!
# AuditRelay.Proofs.Broker.Calls — what a link asks of a broker

`Noted.connector` is any connector with its calls noted down, so that the log of a run is written by the
calls that a link makes. `Link.Stage` says once what a stage of a delivery asks for, and what the link
holds afterwards.

`Orderly` is the order that the calls keep to: a connection is asked for when there is none, what is
published goes over the one there is, and it is given up once. The counts of calls, and which connection
an event went out over, are read off it.
-/

namespace AuditRelay

variable {σ : Type}

/-! ## The log of the calls -/

/-- A call to a broker, with what came of it. -/
inductive Call where
  /-- A connection was asked for, and opened or refused. -/
  | connect (opened : Option Nat)
  /-- An event went out over a connection, and was accepted or not. -/
  | publish (c : Nat) (e : Event) (accepted : Bool)
  | disconnect (c : Nat)
  deriving DecidableEq, Repr

namespace Call

def isConnect : Call → Bool
  | connect _ => true
  | _ => false

def isPublish : Call → Bool
  | publish _ _ _ => true
  | _ => false

end Call

/-- Calls that lead from one live connection, or none, to another: none is opened while there is one,
and what is published and what is disconnected is the live one. -/
inductive Orderly : Option Nat → List Call → Option Nat → Prop where
  | nil (live : Option Nat) : Orderly live [] live
  | refused {cs : List Call} {after : Option Nat} (h : Orderly none cs after) :
      Orderly none (.connect none :: cs) after
  | opened (c : Nat) {cs : List Call} {after : Option Nat} (h : Orderly (some c) cs after) :
      Orderly none (.connect (some c) :: cs) after
  | published (c : Nat) (e : Event) (accepted : Bool) {cs : List Call} {after : Option Nat}
      (h : Orderly (some c) cs after) : Orderly (some c) (.publish c e accepted :: cs) after
  | closed (c : Nat) {cs : List Call} {after : Option Nat} (h : Orderly none cs after) :
      Orderly (some c) (.disconnect c :: cs) after

namespace Orderly

variable {live between after : Option Nat} {cs ds : List Call}

theorem append (h : Orderly live cs between) (hd : Orderly between ds after) :
    Orderly live (cs ++ ds) after := by
  induction h with
  | nil live => exact hd
  | refused h ih => exact .refused (ih hd)
  | opened c h ih => exact .opened c (ih hd)
  | published c e accepted h ih => exact .published c e accepted (ih hd)
  | closed c h ih => exact .closed c (ih hd)

theorem split (h : Orderly live (cs ++ ds) after) :
    ∃ between, Orderly live cs between ∧ Orderly between ds after := by
  induction cs generalizing live with
  | nil => exact ⟨live, .nil live, h⟩
  | cons c cs ih =>
    cases h with
    | refused h =>
      obtain ⟨between, hc, hd⟩ := ih h
      exact ⟨between, .refused hc, hd⟩
    | opened c h =>
      obtain ⟨between, hc, hd⟩ := ih h
      exact ⟨between, .opened c hc, hd⟩
    | published c e accepted h =>
      obtain ⟨between, hc, hd⟩ := ih h
      exact ⟨between, .published c e accepted hc, hd⟩
    | closed c h =>
      obtain ⟨between, hc, hd⟩ := ih h
      exact ⟨between, .closed c hc, hd⟩

/-- A connection is opened once more than it is given up as long as it is the live one. -/
theorem count_eq (h : Orderly live cs after) (c : Nat) :
    cs.count (.connect (some c)) + (if live = some c then 1 else 0) =
      cs.count (.disconnect c) + (if after = some c then 1 else 0) := by
  induction h with
  | nil live => simp
  | refused h ih => simpa using ih
  | opened d h ih =>
    by_cases hd : d = c
    · subst hd
      simpa using ih
    · simpa [hd] using ih
  | published d e accepted h ih => simpa using ih
  | closed d h ih =>
    by_cases hd : d = c
    · subst hd
      simp only [reduceCtorEq, if_false, Nat.add_zero] at ih
      simp [ih, Nat.add_right_comm]
    · simpa [hd] using ih

/-- The live connection is the one opened last, and all that has been asked for since is to publish
over it. -/
theorem last_opened {c : Nat} (h : Orderly live cs after) (hc : after = some c) :
    (live = some c ∧ ∀ d ∈ cs, d.isPublish = true) ∨
      ∃ first since, cs = first ++ .connect (some c) :: since ∧
        ∀ d ∈ since, d.isPublish = true := by
  induction h with
  | nil live => exact .inl ⟨hc, fun d hd => absurd hd List.not_mem_nil⟩
  | refused h ih =>
    rcases ih hc with ⟨hlive, hp⟩ | ⟨first, since, rfl, hs⟩
    · cases hlive
    · exact .inr ⟨_ :: first, since, rfl, hs⟩
  | opened d h ih =>
    rcases ih hc with ⟨hlive, hp⟩ | ⟨first, since, rfl, hs⟩
    · obtain rfl := Option.some.inj hlive
      exact .inr ⟨[], _, rfl, hp⟩
    · exact .inr ⟨_ :: first, since, rfl, hs⟩
  | published d e accepted h ih =>
    rcases ih hc with ⟨hlive, hp⟩ | ⟨first, since, rfl, hs⟩
    · exact .inl ⟨hlive, List.forall_mem_cons.mpr ⟨rfl, hp⟩⟩
    · exact .inr ⟨_ :: first, since, rfl, hs⟩
  | closed d h ih =>
    rcases ih hc with ⟨hlive, hp⟩ | ⟨first, since, rfl, hs⟩
    · cases hlive
    · exact .inr ⟨_ :: first, since, rfl, hs⟩

/-- Whatever is published goes over the connection opened last. -/
theorem opened_of_publish {c : Nat} {e : Event} {accepted : Bool}
    (h : Orderly none (cs ++ .publish c e accepted :: ds) after) :
    ∃ first since, cs = first ++ .connect (some c) :: since ∧ ∀ d ∈ since, d.isPublish = true := by
  obtain ⟨between, hc, hd⟩ := h.split
  cases hd with
  | published _ _ _ hd =>
    rcases hc.last_opened rfl with ⟨hnone, -⟩ | hlast
    · cases hnone
    · exact hlast

/-- Whatever was opened before a connection is asked for has been given up. -/
theorem count_eq_of_connect {opened : Option Nat}
    (h : Orderly none (cs ++ .connect opened :: ds) after) (c : Nat) :
    cs.count (.connect (some c)) = cs.count (.disconnect c) := by
  obtain ⟨between, hc, hd⟩ := h.split
  cases hd with
  | refused hd => exact hc.count_eq c
  | opened d hd => exact hc.count_eq c

end Orderly

/-- A broker with the calls that it has answered, first to last. -/
structure Noted (σ : Type) where
  broker : σ
  calls : List Call

namespace Noted

def note (w : Noted σ) (c : Call) (broker : σ) : Noted σ :=
  ⟨broker, w.calls ++ [c]⟩

/-- A connector with its calls noted down. -/
def connector (C : Connector σ) : Connector (Noted σ) where
  connect w :=
    match C.connect w.broker with
    | (.ok c, b) => (.ok c, w.note (.connect (some c)) b)
    | (.error f, b) => (.error f, w.note (.connect none) b)
  isClosed c w := C.isClosed c w.broker
  age c w := C.age c w.broker
  publish c e w :=
    match C.publish c e w.broker with
    | (.ok (), b) => (.ok (), w.note (.publish c e true) b)
    | (.error f, b) => (.error f, w.note (.publish c e false) b)
  disconnect c w := w.note (.disconnect c) (C.disconnect c w.broker)

end Noted

/-! ## One stage of a delivery -/

namespace Delivery

/-- The connection that is live: the one held, or the one about to be given up. -/
def live (held : Option Nat) : Delivery → Option Nat
  | releasing c | discarding c _ => some c
  | _ => held

/-- What the link holds at a stage. -/
def Holds (held : Option Nat) : Delivery → Prop
  | checking | done none => True
  | publishing c => held = some c
  | releasing _ | connecting | discarding _ _ | done (some _) => held = none

theorem eq_done_of_result? {d : Delivery} {r : Except Fault Unit} (h : d.result? = some r) :
    (r = .ok () ∧ d = .done none) ∨ ∃ f, r = .error f ∧ d = .done (some f) := by
  cases d with
  | done failure =>
    cases failure with
    | none => exact .inl ⟨(Option.some.inj h).symm, rfl⟩
    | some f => exact .inr ⟨f, (Option.some.inj h).symm, rfl⟩
  | checking | releasing | connecting | publishing | discarding => cases h

/-- How often a connection may still be asked for. -/
def connectsLeft : Delivery → Nat
  | checking | releasing _ | connecting => 1
  | _ => 0

/-- How often the event may still go out. -/
def publishesLeft : Delivery → Nat
  | discarding _ _ | done _ => 0
  | _ => 1

end Delivery

namespace Link

variable {C : Connector σ} {e : Event} {l l' : Link} {b b' : σ} {d d' : Delivery} {calls : List Call}

/-- What a stage can make of the delivery, the link and the broker, and what it asks for. -/
inductive Stage (C : Connector σ) (e : Event) (l : Link) (b : σ) :
    Delivery → Delivery → Link → σ → List Call → Prop where
  | missing (h : l.held = none) : Stage C e l b .checking .connecting l b []
  | stale (c : Nat) (h : l.held = some c) (hs : l.isStale C c b = true) :
      Stage C e l b .checking (.releasing c) { l with held := none } b []
  | usable (c : Nat) (h : l.held = some c) (hs : l.isStale C c b = false) :
      Stage C e l b .checking (.publishing c) l b []
  | released (c : Nat) :
      Stage C e l b (.releasing c) .connecting l (C.disconnect c b) [.disconnect c]
  | refused (f : Fault) (b' : σ) (h : C.connect b = (.error f, b')) :
      Stage C e l b .connecting (.done (some f)) l b' [.connect none]
  | opened (c : Nat) (b' : σ) (h : C.connect b = (.ok c, b')) :
      Stage C e l b .connecting (.publishing c) { l with held := some c } b' [.connect (some c)]
  | accepted (c : Nat) (b' : σ) (h : C.publish c e b = (.ok (), b')) :
      Stage C e l b (.publishing c) (.done none) l b' [.publish c e true]
  | failed (c : Nat) (f : Fault) (b' : σ) (h : C.publish c e b = (.error f, b')) :
      Stage C e l b (.publishing c) (.discarding c f) { l with held := none } b'
        [.publish c e false]
  | discarded (c : Nat) (f : Fault) :
      Stage C e l b (.discarding c f) (.done (some f)) l (C.disconnect c b) [.disconnect c]

theorem step_stage (C : Connector σ) (e : Event) (l : Link) (w : Noted σ) {d : Delivery}
    (hd : d.result? = none) :
    ∃ calls, (l.step (Noted.connector C) e w d).2.2.calls = w.calls ++ calls ∧
      Stage C e l w.broker d (l.step (Noted.connector C) e w d).1
        (l.step (Noted.connector C) e w d).2.1
        (l.step (Noted.connector C) e w d).2.2.broker calls := by
  cases d with
  | checking =>
    refine ⟨[], ?_⟩
    cases hl : l.held with
    | none =>
      simp only [step, hl]
      exact ⟨(List.append_nil _).symm, .missing hl⟩
    | some c =>
      cases hs : l.isStale (Noted.connector C) c w with
      | true =>
        simp only [step, hl, hs, if_true]
        exact ⟨(List.append_nil _).symm, .stale c hl hs⟩
      | false =>
        simp only [step, hl, hs, Bool.false_eq_true, if_false]
        exact ⟨(List.append_nil _).symm, .usable c hl hs⟩
  | releasing c => exact ⟨_, rfl, .released c⟩
  | connecting =>
    rcases hc : C.connect w.broker with ⟨f | c, b⟩
    · simp only [step, Noted.connector, hc]
      exact ⟨_, rfl, .refused f b hc⟩
    · simp only [step, Noted.connector, hc]
      exact ⟨_, rfl, .opened c b hc⟩
  | publishing c =>
    rcases hc : C.publish c e w.broker with ⟨f | _, b⟩
    · simp only [step, Noted.connector, hc]
      exact ⟨_, rfl, .failed c f b hc⟩
    · simp only [step, Noted.connector, hc]
      exact ⟨_, rfl, .accepted c b hc⟩
  | discarding c f => exact ⟨_, rfl, .discarded c f⟩
  | done r => cases r <;> contradiction

namespace Stage

theorem maxAge_eq (h : Stage C e l b d d' l' b' calls) : l'.maxAge = l.maxAge := by
  cases h <;> rfl

theorem holds (h : Stage C e l b d d' l' b' calls) (hd : d.Holds l.held) : d'.Holds l'.held := by
  cases h with
  | missing h => exact h
  | usable c h hs => exact h
  | released c | discarded c f | refused f b' h => exact hd
  | stale | opened | failed => rfl
  | accepted => trivial

theorem orderly (h : Stage C e l b d d' l' b' calls) (hd : d.Holds l.held) :
    Orderly (d.live l.held) calls (d'.live l'.held) := by
  cases h with
  | missing h => exact .nil _
  | stale c h hs =>
    simp only [Delivery.live, h]
    exact .nil _
  | usable c h hs => exact .nil _
  | released c =>
    simp only [Delivery.live, show l.held = none from hd]
    exact .closed c (.nil _)
  | refused f b' h =>
    simp only [Delivery.live, show l.held = none from hd]
    exact .refused (.nil _)
  | opened c b' h =>
    simp only [Delivery.live, show l.held = none from hd]
    exact .opened c (.nil _)
  | accepted c b' h =>
    simp only [Delivery.live, show l.held = some c from hd]
    exact .published c e true (.nil _)
  | failed c f b' h =>
    simp only [Delivery.live, show l.held = some c from hd]
    exact .published c e false (.nil _)
  | discarded c f =>
    simp only [Delivery.live, show l.held = none from hd]
    exact .closed c (.nil _)

theorem connects_le (h : Stage C e l b d d' l' b' calls) :
    calls.countP Call.isConnect + d'.connectsLeft ≤ d.connectsLeft := by
  cases h <;> simp [Call.isConnect, Delivery.connectsLeft]

theorem publishes_le (h : Stage C e l b d d' l' b' calls) :
    calls.countP Call.isPublish + d'.publishesLeft ≤ d.publishesLeft := by
  cases h <;> simp [Call.isPublish, Delivery.publishesLeft]

/-- An event goes out at one stage only. -/
theorem of_publish_mem {c : Nat} {e' : Event} {accepted : Bool}
    (h : Stage C e l b d d' l' b' calls) (hm : .publish c e' accepted ∈ calls) :
    d = .publishing c ∧ e' = e ∧ (accepted = true ↔ d' = .done none) := by
  cases h with
  | accepted c' b' h =>
    obtain ⟨rfl, rfl, rfl⟩ := Call.publish.inj (List.mem_singleton.mp hm)
    exact ⟨rfl, rfl, ⟨fun _ => rfl, fun _ => rfl⟩⟩
  | failed c' f b' h =>
    obtain ⟨rfl, rfl, rfl⟩ := Call.publish.inj (List.mem_singleton.mp hm)
    exact ⟨rfl, rfl, ⟨fun ht => (nomatch ht), fun hd => (nomatch hd)⟩⟩
  | missing | stale | usable => cases hm
  | released | refused | opened | discarded => cases List.mem_singleton.mp hm

/-- A delivery ends without a failure when its event has been accepted. -/
theorem accepted_mem (h : Stage C e l b d (.done none) l' b' calls) :
    ∃ c, .publish c e true ∈ calls := by
  cases h with
  | accepted c b' h => exact ⟨c, List.mem_singleton.mpr rfl⟩

/-- A connection is published over when it has just been opened, or has passed the check. -/
theorem of_publishing {c : Nat} (h : Stage C e l b d (.publishing c) l' b' calls) :
    .connect (some c) ∈ calls ∨
      d = .checking ∧ l.held = some c ∧ C.isClosed c b = false ∧ C.age c b < l.maxAge := by
  cases h with
  | opened c b' h => exact .inl (List.mem_singleton.mpr rfl)
  | usable c h hs =>
    rw [isStale, Bool.or_eq_false_iff, decide_eq_false_iff_not, Nat.not_le] at hs
    exact .inr ⟨rfl, h, hs.1, hs.2⟩

end Stage

/-! ## A whole delivery -/

theorem run_of_result? {r : Except Fault Unit} (h : d.result? = some r) :
    l.run C e b d = (r, l, b) := by
  unfold run
  split
  · rename_i r' h'
    rw [Option.some.inj (h.symm.trans h')]
  · rename_i h'
    cases h.symm.trans h'

theorem run_step (h : d.result? = none) :
    l.run C e b d =
      (l.step C e b d).2.1.run C e (l.step C e b d).2.2 (l.step C e b d).1 := by
  rw [run]
  split
  · rename_i r' h'
    cases h.symm.trans h'
  · rfl

end Link

end AuditRelay
