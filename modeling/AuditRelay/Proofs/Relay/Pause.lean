import AuditRelay.Proofs.Relay.Buffers
import AuditRelay.Proofs.Relay.Course
import AuditRelay.Proofs.Store.Willing
import AuditRelay.Proofs.Store.Rows

/-!
# AuditRelay.Proofs.Relay.Pause — when a pause ends

A relay over a spool or a table pauses when its store is full, and parks an event. A pass that has
read the store to its end leaves an empty store, which has room (`Buffer.Drains`). Whether the pause
is over then depends on the pass: it is over exactly when the pass has committed a batch, or when
there was no pause (`pause_over_iff`). Passes that only set damaged lines aside or move rows away
make room too, but the event stays parked; and as an empty store brings no batch, it stays parked
for good (`paused_for_good`).

The invariants are `Courier.IsTold`, that the gauge tells of the parked event, and `Course.Keeps`,
that the store is sound for the batch that is out.
-/

namespace AuditRelay

variable {β σ : Type}

/-! ## The gauge -/

namespace Courier

/-- The gauge tells whether an event is parked. -/
def IsTold (c : Courier) : Prop :=
  c.counters.backpressure = c.parked.isSome

variable {c : Courier}

/-- A pass that has committed something ends the pause. -/
theorem endPass_succ (c : Courier) (n : Nat) :
    (c.endPass (n + 1)).parked = none ∧ (c.endPass (n + 1)).counters.backpressure = false ∧
    ((c.endPass (n + 1)).phase = .idle ∨
      ∃ e, (c.endPass (n + 1)).phase = .delivering e .checking) := by
  cases hp : c.parked with
  | none => simp [endPass, hp]
  | some e => simp [endPass, hp, receive]

theorem IsTold.endPass (h : c.IsTold) (pass : Nat) : (c.endPass pass).IsTold := by
  cases pass with
  | zero => exact h
  | succ n =>
    obtain ⟨hparked, hgauge, -⟩ := c.endPass_succ n
    rw [IsTold, hparked, hgauge]
    rfl

theorem IsTold.resume (h : c.IsTold) (pass : Option Nat) : (c.resume pass).IsTold := by
  cases pass with
  | none => exact h
  | some n => exact h

theorem IsTold.replay (h : c.IsTold) (pass : Nat) (b : Batch) (rest : List Event) :
    (c.replay pass b rest).IsTold := by
  cases rest with
  | nil => exact h
  | cons e rest => exact h

theorem IsTold.buffered (h : c.IsTold) (e : Event) (pass : Option Nat)
    (answer : Except Fault Unit) : (c.buffered e pass answer).IsTold := by
  cases answer with
  | ok u =>
    refine IsTold.resume ?_ pass
    exact h
  | error f =>
    unfold Courier.buffered
    by_cases hf : f.isStoreFull = true
    · -- the event is parked and the gauge is set
      simp only [if_pos hf]
      exact IsTold.resume (c := { c with
        parked := some e
        counters := { c.counters with backpressure := true } }) rfl pass
    · simp only [if_neg hf]
      refine IsTold.resume ?_ pass
      exact h

theorem IsTold.gotBatch (h : c.IsTold) (pass : Nat) (answer : Except Fault (Option Batch)) :
    (c.gotBatch pass answer).IsTold := by
  cases answer with
  | ok found =>
    cases found with
    | none => exact h.endPass pass
    | some b => exact h.replay pass b b.events
  | error f => exact h.endPass pass

theorem IsTold.replayed (h : c.IsTold) (pass : Nat) (b : Batch) (rest : List Event)
    (failure : Option Fault) : (c.replayed pass b rest failure).IsTold := by
  cases failure with
  | none => exact h.replay pass b rest
  | some f =>
    refine IsTold.endPass ?_ pass
    exact h

theorem IsTold.committed (h : c.IsTold) (pass : Nat) (b : Batch) (answer : Except Fault Unit) :
    (c.committed pass b answer).IsTold := by
  cases answer with
  | ok u => exact h
  | error f => exact h.endPass pass

/-- Every call keeps the gauge right. -/
theorem IsTold.turn {S : Surroundings σ} {i i' : Intake} {w w' : σ} {k : Courier} (h : c.IsTold)
    (ht : Turn S c i w k i' w') : k.IsTold := by
  cases ht with
  | rests hp => exact h
  | delivered e failure hp =>
    cases failure with
    | none => exact h
    | some f => exact h
  | delivers e d hp hd => exact h
  | buffered e pass hp => exact h.buffered e pass _
  | collects pass m i' hp hr ht => exact h
  | collected pass c' hp hc hr =>
    rcases hc with rfl | rfl
    · exact h
    · exact h
  | read pass hp => exact h.gotBatch pass _
  | replayed pass b e rest failure hp => exact h.replayed pass b rest failure
  | replays pass b e rest d hp hd => exact h
  | committed pass b hp => exact h.committed pass b _
  | refreshed hp => exact h

end Courier

/-! ## The store -/

/-- A buffer that has room again when it has been read to its end. It is `sound` for the batch that
is out, or for none, and `empty` once a reading has found nothing. -/
structure Buffer.Drains (B : Buffer σ) (sound : Option Batch → σ → Prop) (empty : σ → Prop) :
    Prop where
  write : ∀ e s, sound none s → sound none (B.write e s).2
  read : ∀ s, sound none s → sound (Batch.brought (B.read s).1) (B.read s).2
  commit : ∀ b s, sound (some b) s → sound none (B.commit b s).2
  drop : ∀ b s, sound (some b) s → sound none s
  refresh : ∀ s, sound none s → sound none (B.refresh s).2
  empty_read : ∀ s, sound none s → (B.read s).1 = .ok none → empty (B.read s).2
  room : ∀ e s f, sound none s → empty s → (B.write e s).1 = .error f → f.isStoreFull = false
  read_empty : ∀ s, sound none s → empty s → (B.read s).1 = .ok none
  refresh_empty : ∀ s, sound none s → empty s → empty (B.refresh s).2

namespace Course

variable {C : Connector β} {B : Buffer σ} {sound : Option Batch → σ → Prop} {empty : σ → Prop}
  {c c' : Course β σ}

/-- What a relay over such a buffer keeps to. -/
structure Keeps (sound : Option Batch → σ → Prop) (c : Course β σ) : Prop where
  told : c.courier.IsTold
  store : sound c.courier.phase.batch? c.world.store

/-- A call keeps the store sound for the batch that is out after it. -/
theorem Keeps.turn (h : c.Keeps sound) (hB : B.Drains sound empty) {k : Courier} {i : Intake}
    {w : Outside β σ}
    (ht : Courier.Turn (C.beside B) c.courier c.intake c.world k i w) :
    sound k.phase.batch? w.store := by
  have hstore := h.store
  cases ht with
  | rests hp => exact hstore
  | delivered e failure hp =>
    rw [hp] at hstore
    cases failure with
    | none => exact hstore
    | some f => exact hstore
  | delivers e d hp hd =>
    rw [hp] at hstore
    rw [(Link.step_beside C B c.courier.link e c.world hd).1]
    exact hstore
  | buffered e pass hp =>
    rw [hp] at hstore
    rw [Courier.batch?_buffered]
    exact hB.write e c.world.store hstore
  | collects pass m i' hp hr ht =>
    rw [hp] at hstore
    exact hstore
  | collected pass c' hp hc hr =>
    rw [hp] at hstore
    exact hstore
  | read pass hp =>
    rw [hp] at hstore
    rw [Courier.batch?_gotBatch]
    exact hB.read c.world.store hstore
  | replayed pass b e rest failure hp =>
    rw [hp] at hstore
    cases failure with
    | none => rwa [Courier.replayed, Courier.batch?_replay]
    | some f =>
      -- the batch is given up
      rw [Courier.replayed, Courier.batch?_endPass]
      exact hB.drop b _ hstore
  | replays pass b e rest d hp hd =>
    rw [hp] at hstore
    rw [(Link.step_beside C B c.courier.link e c.world hd).1]
    exact hstore
  | committed pass b hp =>
    rw [hp] at hstore
    rw [Courier.batch?_committed]
    exact hB.commit b c.world.store hstore
  | refreshed hp =>
    rw [hp] at hstore
    exact hB.refresh c.world.store hstore

theorem Keeps.step (h : c.Keeps sound) (hB : B.Drains sound empty) (hs : Step C B c c') :
    c'.Keeps sound := by
  have hstore := h.store
  cases hs with
  | call =>
    have ht := Courier.step_turn (C.beside B) c.courier c.intake c.world
    exact ⟨h.told.turn ht, h.turn hB ht⟩
  | pass hp =>
    rw [hp] at hstore
    exact ⟨h.told, hstore⟩
  | refresh hp =>
    rw [hp] at hstore
    exact ⟨h.told, hstore⟩
  | receive m i hp hr ht =>
    rw [hp] at hstore
    exact ⟨h.told, hstore⟩
  | exhausted hp hr ht hx => exact ⟨h.told, hstore⟩
  | submit m => exact ⟨h.told, hstore⟩
  | enter m hm => exact ⟨h.told, hstore⟩
  | leave m hm => exact ⟨h.told, hstore⟩
  | giveBack m hm => exact ⟨h.told, hstore⟩
  | producers n => exact ⟨h.told, hstore⟩
  | broker b => exact ⟨h.told, hstore⟩

theorem Keeps.reaches (h : c.Keeps sound) (hB : B.Drains sound empty) (hr : Reaches C B c c') :
    c'.Keeps sound := by
  induction hr with
  | refl => exact h
  | tail _ hs ih => exact ih.step hB hs

/-! ## After a pass -/

/-- A run on which the courier has something to do until its end. -/
inductive Busy (C : Connector β) (B : Buffer σ) (c : Course β σ) : Course β σ → Prop where
  | refl : Busy C B c c
  | tail {x y : Course β σ} (h : Busy C B c x) (hp : x.courier.phase ≠ .idle) (hs : Step C B x y) :
      Busy C B c y

/-- There is no pause. An event that is in hand finds an empty store. -/
structure Resumes (sound : Option Batch → σ → Prop) (empty : σ → Prop) (c : Course β σ) :
    Prop where
  parked : c.courier.parked = none
  gauge : c.courier.counters.backpressure = false
  phase : c.courier.phase = .idle ∨
    ((∃ e d, c.courier.phase = .delivering e d) ∨ ∃ e, c.courier.phase = .buffering e none) ∧
      sound none c.world.store ∧ empty c.world.store

/-- Dealing with an event that was parked does not lead into a pause again. -/
theorem Resumes.step (h : c.Resumes sound empty) (hB : B.Drains sound empty)
    (hp : c.courier.phase ≠ .idle) (hs : Step C B c c') : c'.Resumes sound empty := by
  obtain ⟨hparked, hgauge, hphase⟩ := h
  have hhand := hphase.resolve_left hp
  obtain ⟨hwhat, hsound, hempty⟩ := hhand
  cases hs with
  | call =>
    rcases hwhat with ⟨e, d, hd⟩ | ⟨e, he⟩
    · by_cases hdone : ∃ failure, d = .done failure
      · obtain ⟨failure, rfl⟩ := hdone
        simp only [call, Courier.step, hd]
        cases failure with
        | none => exact ⟨hparked, hgauge, .inl rfl⟩
        | some f => exact ⟨hparked, hgauge, .inr ⟨.inr ⟨e, rfl⟩, hsound, hempty⟩⟩
      · -- the delivery goes on beside the store
        have hresult : d.result? = none := by
          cases d with
          | done failure => exact absurd ⟨failure, rfl⟩ hdone
          | checking | releasing | connecting | publishing | discarding => rfl
        have hstore := (Link.step_beside C B c.courier.link e c.world hresult).1
        have hcall : c.call C B = { c with
            courier := { c.courier with
              link := (c.courier.link.step (C.beside B).toConnector e c.world d).2.1
              phase := .delivering e (c.courier.link.step (C.beside B).toConnector e c.world d).1 }
            world := (c.courier.link.step (C.beside B).toConnector e c.world d).2.2
            abandoned := c.abandoned ++ [] } := by
          cases d with
          | done failure => exact absurd ⟨failure, rfl⟩ hdone
          | checking | releasing | connecting | publishing | discarding =>
            simp only [call, Courier.step, hd, Phase.givenUp]
        rw [hcall]
        refine ⟨hparked, hgauge, .inr ⟨.inl ⟨e, _, rfl⟩, ?_, ?_⟩⟩
        · rwa [hstore]
        · rwa [hstore]
    · -- the store is not full
      simp only [call, Courier.step, he]
      show Resumes sound empty ⟨c.courier.buffered e none (B.write e c.world.store).1, _, _, _, _⟩
      cases hr : (B.write e c.world.store).1 with
      | ok u => exact ⟨hparked, hgauge, .inl rfl⟩
      | error f =>
        have hf : ¬ f.isStoreFull = true := by
          rw [hB.room e c.world.store f hsound hempty hr]
          exact Bool.false_ne_true
        unfold Courier.buffered
        simp only [if_neg hf]
        exact ⟨hparked, hgauge, .inl rfl⟩
  | pass hidle => exact absurd hidle hp
  | refresh hidle => exact absurd hidle hp
  | receive m i hidle hr ht => exact absurd hidle hp
  | exhausted hidle hr ht hx => exact absurd hidle hp
  | submit m => exact ⟨hparked, hgauge, hphase⟩
  | enter m hm => exact ⟨hparked, hgauge, hphase⟩
  | leave m hm => exact ⟨hparked, hgauge, hphase⟩
  | giveBack m hm => exact ⟨hparked, hgauge, hphase⟩
  | producers n => exact ⟨hparked, hgauge, hphase⟩
  | broker b => exact ⟨hparked, hgauge, hphase⟩

theorem Resumes.busy (h : c.Resumes sound empty) (hB : B.Drains sound empty)
    (hb : Busy C B c c') : c'.Resumes sound empty := by
  induction hb with
  | refl => exact h
  | tail _ hp hs ih => exact ih.step hB hp hs

/-- A busy run that begins with a free courier has no steps. -/
theorem Busy.eq_of_idle (h : Busy C B c c') (hp : c.courier.phase = .idle) : c' = c := by
  induction h with
  | refl => rfl
  | tail _ hx _ ih =>
    rw [ih] at hx
    exact absurd hp hx

/-- A call that finds nothing in the store ends the pass. -/
theorem call_reading_none {pass : Nat} (hp : c.courier.phase = .reading pass)
    (hnone : (B.read c.world.store).1 = .ok none) :
    (c.call C B).courier = c.courier.endPass pass ∧
    (c.call C B).world.store = (B.read c.world.store).2 := by
  have hread : ((C.beside B).read c.world).1 = .ok none := hnone
  simp only [call, Courier.step, hp, hread]
  exact ⟨rfl, rfl⟩

/-- After a pass that has read the store to its end there is no pause if the pass has committed
something or there was none, and only then. -/
theorem Keeps.parked_iff (h : c.Keeps sound) (hB : B.Drains sound empty) {pass : Nat}
    (hp : c.courier.phase = .reading pass) (hnone : (B.read c.world.store).1 = .ok none)
    (hb : Busy C B (c.call C B) c') :
    (c'.courier.parked = none ∧ c'.courier.counters.backpressure = false) ↔
      (0 < pass ∨ c.courier.parked = none) := by
  obtain ⟨hcourier, hworld⟩ := call_reading_none (C := C) hp hnone
  have hstore := h.store
  rw [hp] at hstore
  cases pass with
  | zero =>
    -- nothing was committed, and nothing changes
    have hidle : (c.call C B).courier.phase = .idle := by
      rw [hcourier]
      rfl
    rw [hb.eq_of_idle hidle, hcourier]
    have htold : c.courier.counters.backpressure = c.courier.parked.isSome := h.told
    constructor
    · intro hfree
      exact .inr hfree.1
    · intro hfree
      have hparked : c.courier.parked = none := hfree.resolve_left (lt_irrefl 0)
      refine ⟨hparked, htold.trans ?_⟩
      rw [hparked]
      rfl
  | succ n =>
    obtain ⟨hparked, hgauge, hphase⟩ := c.courier.endPass_succ n
    have hsound : sound none (B.read c.world.store).2 := by
      have hread := hB.read c.world.store hstore
      rwa [hnone] at hread
    have hempty := hB.empty_read c.world.store hstore hnone
    have hresumes : (c.call C B).Resumes sound empty := by
      refine ⟨by rw [hcourier, hparked], by rw [hcourier, hgauge], ?_⟩
      rw [hcourier, hworld]
      rcases hphase with hidle | ⟨e, he⟩
      · exact .inl hidle
      · exact .inr ⟨.inl ⟨e, .checking, he⟩, hsound, hempty⟩
    have hend := hresumes.busy hB hb
    exact ⟨fun _ => .inl (Nat.succ_pos n), fun _ => ⟨hend.parked, hend.gauge⟩⟩

/-! ## A pause over an empty store -/

/-- An event is parked, and the store is empty. -/
structure Paused (sound : Option Batch → σ → Prop) (empty : σ → Prop) (e : Event)
    (c : Course β σ) : Prop where
  parked : c.courier.parked = some e
  phase : c.courier.phase = .idle ∨ c.courier.phase = .collecting 0 ∨
    c.courier.phase = .reading 0 ∨ c.courier.phase = .refreshing
  sound : sound none c.world.store
  empty : empty c.world.store

theorem Paused.isReceiving {e : Event} (h : c.Paused sound empty e) :
    c.courier.isReceiving = false := by
  unfold Courier.isReceiving
  rw [h.parked]
  exact Bool.and_false _

/-- Nothing ends such a pause: a pass finds no batch to commit. -/
theorem Paused.step {e : Event} (h : c.Paused sound empty e) (hB : B.Drains sound empty)
    (hs : Step C B c c') : c'.Paused sound empty e := by
  have hclosed := h.isReceiving
  obtain ⟨hparked, hphase, hsound, hempty⟩ := h
  cases hs with
  | call =>
    rcases hphase with hp | hp | hp | hp
    · have hcall : c.call C B = { c with abandoned := c.abandoned ++ [] } := by
        simp only [call, Courier.step, hp, Phase.givenUp]
      rw [hcall]
      exact ⟨hparked, .inl hp, hsound, hempty⟩
    · -- the intake is not looked at
      have hcall : c.call C B = { c with
          courier := { c.courier with phase := .reading 0 }
          abandoned := c.abandoned ++ [] } := by
        simp only [call, Courier.step, hp, hclosed, Bool.false_eq_true, if_false, Phase.givenUp]
      rw [hcall]
      exact ⟨hparked, .inr (.inr (.inl rfl)), hsound, hempty⟩
    · have hnone := hB.read_empty c.world.store hsound hempty
      have hread := hB.read c.world.store hsound
      rw [hnone] at hread
      obtain ⟨hcourier, hworld⟩ := call_reading_none (C := C) hp hnone
      refine ⟨by rw [hcourier]; exact hparked, .inl (by rw [hcourier]; rfl), ?_, ?_⟩
      · rw [hworld]
        exact hread
      · rw [hworld]
        exact hB.empty_read c.world.store hsound hnone
    · have hcall : c.call C B = { c with
          courier := { c.courier with phase := .idle }
          world := ((C.beside B).refresh c.world).2
          abandoned := c.abandoned ++ [] } := by
        simp only [call, Courier.step, hp, Phase.givenUp]
      rw [hcall]
      exact ⟨hparked, .inl rfl, hB.refresh _ hsound, hB.refresh_empty _ hsound hempty⟩
  | pass hp => exact ⟨hparked, .inr (.inl rfl), hsound, hempty⟩
  | refresh hp => exact ⟨hparked, .inr (.inr (.inr rfl)), hsound, hempty⟩
  | receive m i hp hr ht =>
    rw [hclosed] at hr
    cases hr
  | exhausted hp hr ht hx =>
    rw [hclosed] at hr
    cases hr
  | submit m => exact ⟨hparked, hphase, hsound, hempty⟩
  | enter m hm => exact ⟨hparked, hphase, hsound, hempty⟩
  | leave m hm => exact ⟨hparked, hphase, hsound, hempty⟩
  | giveBack m hm => exact ⟨hparked, hphase, hsound, hempty⟩
  | producers n => exact ⟨hparked, hphase, hsound, hempty⟩
  | broker b => exact ⟨hparked, hphase, hsound, hempty⟩

theorem Paused.reaches {e : Event} (h : c.Paused sound empty e) (hB : B.Drains sound empty)
    (hr : Reaches C B c c') : c'.Paused sound empty e := by
  induction hr with
  | refl => exact h
  | tail _ hs ih => exact ih.step hB hs

end Course

/-! ## Spools and tables -/

namespace Spool

/-- The spool counts the octets of its event files along, and may take up at least one. -/
structure Accounts (s : Spool) (fs : Named Octets) : Prop where
  total : s.total = octetsIn fs
  limit : s.totalLimit ≠ some 0
  current : ∀ name, s.current = some name → ∃ n, name = fileName eventStem n

/-- A spool that counts its files along, and whose batch is one of them. -/
def IsSoundFor (p : Place) (b : Option Batch) (x : Spool × Disk) : Prop :=
  ∃ fs, x.2.Stores p fs ∧ x.1.Accounts fs ∧
    ∀ q ∈ b, ∃ name c, q.token = .file name ∧ Named.get? fs name = some c

/-- There are no event files, and none are counted. -/
def IsDrained (p : Place) (x : Spool × Disk) : Prop :=
  x.2.Stores p [] ∧ x.1.total = 0

variable {p : Place} {s s' : Spool} {d d' : Disk} {fs gs : Named Octets}

theorem IsFresh.accounts (h : s.IsFresh fs) (ht : s.total = octetsIn fs) : s.Accounts fs := by
  refine ⟨ht, h.totalLimit, fun name hname => ?_⟩
  rw [h.current] at hname
  cases hname

/-- What a spool keeps while it reads is enough, if the total is right. -/
theorem Accounts.follows (h : s.Accounts fs) (hs : Follows s s') (ht : s'.total = octetsIn gs) :
    s'.Accounts gs := by
  refine ⟨ht, by rw [hs.totalLimit]; exact h.limit, fun name hname => ?_⟩
  rcases hs.current with hc | hc
  · exact h.current name (by rw [← hc, hname])
  · rw [hc] at hname
    cases hname

/-- A line that is put behind a file is counted, and it is all that has been added. -/
theorem Accounts.wrote (h : s.Accounts fs) (hd : d.Stores p fs) {line : Octets}
    {answer : Except Fault Unit} (hw : Wrote p d.host s d fs line answer s' gs) :
    s'.Accounts gs := by
  have hchosen : ∀ {n : Nat} {name : String}, some (fileName eventStem n) = some name →
      ∃ n, name = fileName eventStem n :=
    fun hname => ⟨_, (Option.some.inj hname).symm⟩
  cases hw with
  | exhausted => exact h
  | untold => exact ⟨h.total, h.limit, h.current⟩
  | full => exact ⟨h.total, h.limit, fun _ => hchosen⟩
  | failed n highest op f _ _ _ _ _ hno =>
    obtain ⟨rfl, -⟩ := hno hd.willing
    exact ⟨h.total, h.limit, fun _ => hchosen⟩
  | done n =>
    refine ⟨?_, h.limit, fun _ => hchosen⟩
    rw [octetsIn_put hd.ordered, ← h.total]

theorem Accounts.isSoundFor (h : s.Accounts fs) (hstores : d.Stores p fs) :
    IsSoundFor p none (s, d) :=
  ⟨fs, hstores, h, fun q hq => by cases hq⟩

namespace IsSoundFor

variable {b : Option Batch}

theorem drop (h : IsSoundFor p b (s, d)) : IsSoundFor p none (s, d) := by
  obtain ⟨fs, hstores, haccounts, -⟩ := h
  exact haccounts.isSoundFor hstores

theorem write (h : IsSoundFor p b (s, d)) (hp : p.IsUnlinked) (e : Event) :
    IsSoundFor p none (s.write d e).2 := by
  obtain ⟨fs, hstores, haccounts, -⟩ := h
  obtain ⟨r, s', d', gs, hrun, hstores', -, hw⟩ := hstores.write hp haccounts.current e
  rw [hrun]
  exact (haccounts.wrote hstores hw).isSoundFor hstores'

/-- The batch is the first of the files that are left. -/
theorem read (h : IsSoundFor p b (s, d)) (hp : p.IsUnlinked) :
    IsSoundFor p (Batch.brought (s.nextBatch d).1) (s.nextBatch d).2 := by
  obtain ⟨fs, hstores, haccounts, -⟩ := h
  obtain ⟨r, s', d', gs, hrun, hstores', -, hread⟩ := hstores.nextBatch hp s
  rw [hrun]
  cases hread with
  | nothing _ hheld hs ht =>
    have haccounts' : s'.Accounts [] := haccounts.follows hs (ht haccounts.total)
    exact haccounts'.isSoundFor hstores'
  | batch name c c' passed rest _ hfs hpassed hc hc' hs hcur ht =>
    refine ⟨_, hstores', haccounts.follows hs (ht haccounts.total), fun q hq => ?_⟩
    refine ⟨name, c', ?_, Named.get?_first name c' rest⟩
    rw [← Option.some.inj hq]
  | exhausted passed rest _ hfs hpassed hs hmax ht =>
    exact (haccounts.follows hs (ht haccounts.total)).isSoundFor hstores'

/-- A commit takes out the file of the batch. -/
theorem commit {b : Batch} (h : IsSoundFor p (some b) (s, d)) :
    IsSoundFor p none (Spool.buffer.commit b (s, d)).2 := by
  obtain ⟨fs, hstores, haccounts, hbatch⟩ := h
  obtain ⟨name, c, htoken, hg⟩ := hbatch b rfl
  obtain ⟨d', hrun, hstores', -⟩ := hstores.removeFile s hg
  have hcommit : Spool.buffer.commit b (s, d) = s.removeFile d name := by
    unfold Spool.buffer
    simp only [htoken, Spool.commit]
  rw [hcommit, hrun]
  have hsum := octetsIn_erase hstores.ordered hg
  have htotal : s.total - c.length = octetsIn (Named.erase name fs) := by
    rw [haccounts.total]
    omega
  exact Accounts.isSoundFor ⟨htotal, haccounts.limit, haccounts.current⟩ hstores'

/-- A refresh counts the octets again. -/
theorem refresh (h : IsSoundFor p b (s, d)) : IsSoundFor p none (s.refreshGauges d).2 := by
  obtain ⟨fs, hstores, haccounts, -⟩ := h
  obtain ⟨d', hrun, hstores', -⟩ := hstores.refreshGauges s
  rw [hrun]
  exact Accounts.isSoundFor ⟨rfl, haccounts.limit, haccounts.current⟩ hstores'

/-- A reading that finds nothing leaves no file behind. -/
theorem isDrained (h : IsSoundFor p b (s, d)) (hp : p.IsUnlinked)
    (hnone : (s.nextBatch d).1 = .ok none) : IsDrained p (s.nextBatch d).2 := by
  obtain ⟨fs, hstores, haccounts, -⟩ := h
  obtain ⟨r, s', d', gs, hrun, hstores', -, hread⟩ := hstores.nextBatch hp s
  rw [hrun] at hnone ⊢
  obtain rfl : r = .ok none := hnone
  cases hread with
  | nothing _ hheld hs ht => exact ⟨hstores', ht haccounts.total⟩

/-- The limit is not zero, so a store without files is not full. -/
theorem isStoreFull_eq_false (h : IsSoundFor p b (s, d)) (hp : p.IsUnlinked)
    (hd : IsDrained p (s, d)) {e : Event} {f : Fault} (hf : (s.write d e).1 = .error f) :
    f.isStoreFull = false := by
  obtain ⟨fs, hstores, haccounts, -⟩ := h
  have hzero : s.total = 0 := hd.2
  obtain ⟨r, s', d', gs, hrun, -, -, hw⟩ := hstores.write hp haccounts.current e
  rw [hrun] at hf
  obtain rfl : r = .error f := hf
  cases hw with
  | exhausted | untold | failed => rfl
  | full n highest limit ha hlimit hle =>
    obtain rfl : limit = 0 := Nat.le_zero.mp (hle.trans_eq hzero)
    exact absurd hlimit haccounts.limit

end IsSoundFor

theorem IsDrained.read (h : IsDrained p (s, d)) : (s.nextBatch d).1 = .ok none := by
  rcases h.1.houses.listFiles with ⟨d', hlist, -⟩ | ⟨f, d', -, -, hno⟩
  · unfold nextBatch
    rw [hlist]
    rfl
  · exact absurd h.1.willing hno

theorem IsDrained.refresh (h : IsDrained p (s, d)) : IsDrained p (s.refreshGauges d).2 := by
  obtain ⟨d', hrun, hstores', -⟩ := h.1.refreshGauges s
  rw [hrun]
  exact ⟨hstores', rfl⟩

theorem drains (hp : p.IsUnlinked) : Spool.buffer.Drains (IsSoundFor p) (IsDrained p) where
  write e _ h := h.write hp e
  read _ h := h.read hp
  commit _ _ h := h.commit
  drop _ _ h := h.drop
  refresh _ h := h.refresh
  empty_read _ h hnone := h.isDrained hp hnone
  room _ _ _ h hd hf := h.isStoreFull_eq_false hp hd hf
  read_empty _ _ hd := hd.read
  refresh_empty _ _ hd := hd.refresh

end Spool

namespace TableStore

/-- The limits allow a row, and no statement is refused. -/
def IsSoundFor (_ : Option Batch) (x : TableStore × Database) : Prop :=
  0 < x.1.limit ∧ 0 < x.1.pageSize ∧ x.2.IsWilling

/-- There are no rows. -/
def IsDrained (x : TableStore × Database) : Prop :=
  x.2.rows = []

theorem Follows.isSoundFor {s s' : TableStore} (hs : Follows s s') {db db' : Database}
    {b : Option Batch} (h : IsSoundFor b (s, db)) (hdb : db'.IsWilling) (b' : Option Batch) :
    IsSoundFor b' (s', db') := by
  obtain ⟨hlimit, hpage, -⟩ := h
  refine ⟨?_, ?_, hdb⟩
  · rw [hs.limit]
    exact hlimit
  · rw [hs.pageSize]
    exact hpage

namespace IsSoundFor

variable {s : TableStore} {db : Database} {b : Option Batch}

theorem write (h : IsSoundFor b (s, db)) (e : Event) : IsSoundFor none (s.write db e).2 := by
  obtain ⟨hs, hdb, -⟩ := write_written (s := s) h.2.2 e
  exact hs.isSoundFor h hdb none

theorem read (h : IsSoundFor b (s, db)) :
    IsSoundFor (Batch.brought (s.nextBatch db).1) (s.nextBatch db).2 := by
  obtain ⟨r, s', db', hrun, hs, hdb, -⟩ := nextBatch_read (s := s) h.2.2 h.2.1
  rw [hrun]
  exact hs.isSoundFor h hdb _

/-- Only rows are committed. -/
theorem commit {b : Batch} (h : IsSoundFor (some b) (s, db)) :
    IsSoundFor none (TableStore.buffer.commit b (s, db)).2 := by
  cases ht : b.token with
  | rows ids =>
    have hcommit : TableStore.buffer.commit b (s, db) = s.commit db ids := by
      unfold TableStore.buffer
      simp only [ht]
    obtain ⟨hs, hdb⟩ := commit_committed (s := s) h.2.2 ids
    rw [hcommit]
    exact hs.isSoundFor h hdb none
  | oldest | file =>
    have hcommit : TableStore.buffer.commit b (s, db) = (.ok (), (s, db)) := by
      unfold TableStore.buffer
      simp only [ht]
    rw [hcommit]
    exact h

theorem refresh (h : IsSoundFor b (s, db)) : IsSoundFor none (s.refreshGauges db).2 := by
  obtain ⟨hs, hdb, -⟩ := refreshGauges_refreshed (s := s) h.2.2
  exact hs.isSoundFor h hdb none

/-- A reading that finds nothing leaves no row behind. -/
theorem isDrained (h : IsSoundFor b (s, db)) (hnone : (s.nextBatch db).1 = .ok none) :
    IsDrained (s.nextBatch db).2 := by
  obtain ⟨r, s', db', hrun, -, -, hrows⟩ := nextBatch_read (s := s) h.2.2 h.2.1
  rw [hrun] at hnone ⊢
  exact hrows hnone

/-- The limit is not zero, so a store without rows is not full. -/
theorem isStoreFull_eq_false (h : IsSoundFor b (s, db)) (hd : IsDrained (s, db)) {e : Event}
    {f : Fault} (hf : (s.write db e).1 = .error f) : f.isStoreFull = false := by
  obtain ⟨-, -, hfull⟩ := write_written (s := s) h.2.2 e
  have hle := hfull f hf
  have hrows : db.rows = [] := hd
  have hlimit : 0 < s.limit := h.1
  rw [hrows, List.length_nil] at hle
  omega

end IsSoundFor

theorem drains : TableStore.buffer.Drains IsSoundFor IsDrained where
  write e _ h := h.write e
  read _ h := h.read
  commit _ _ h := h.commit
  drop _ _ h := h
  refresh _ h := h.refresh
  empty_read _ h hnone := h.isDrained hnone
  room _ _ _ h hd hf := h.isStoreFull_eq_false hd hf
  read_empty _ h hd := nextBatch_of_no_rows h.2.2 hd
  refresh_empty _ h hd := by
    obtain ⟨-, -, hsame⟩ := refreshGauges_refreshed h.2.2
    exact hsame.trans hd

end TableStore

/-! ## After a pass that has found nothing -/

/-- A store that has just been opened: a spool in a directory that was there or has been made, or a
table store. No call on it is refused. In the directory no link stands under a name that the spool
uses for files of its own. -/
inductive Buffer.IsOpened : {σ : Type} → Buffer σ → σ → Prop where
  | spool {p : Place} {d d₁ : Disk} (hp : p.IsUnlinked)
      (hfits : ∀ f ∈ Spool.files p.found, p.Fits f.1) (params : SpoolParameters)
      (registry : Registry) (hmake : d.makeDirectory (params.directory.getD "") = (.ok (), d₁))
      (hd : d₁.Shows p p.found) {s : Spool} (hs : (Spool.create params registry d).1 = .ok s) :
      IsOpened Spool.buffer (s, (Spool.create params registry d).2.2)
  | table {db : Database} (hdb : db.IsWilling) (params : TableParameters) (registry : Registry)
      {s : TableStore} (hs : (TableStore.create params registry db).1 = .ok s) :
      IsOpened TableStore.buffer (s, (TableStore.create params registry db).2.2)

/-- An opened store is sound, and empty after it has been read to its end. -/
theorem Buffer.IsOpened.drains {B : Buffer σ} {store : σ} (h : B.IsOpened store) :
    ∃ sound empty, B.Drains sound empty ∧ sound none store := by
  cases h with
  | spool hp hfits params registry hmake hd hs =>
    have hmade := hd.stores hfits
    obtain ⟨hcreated, hfresh⟩ := Spool.create_made params registry
      (by rw [hmake]; exact hmade.houses)
    obtain ⟨hnew, htotal⟩ := hfresh _ hs
    -- a spool that is opened has gone through the directory
    have hhouses := hcreated.resolve_right fun hnone => hnone.2 _ hs
    have htold := hmade.houses.tellsAll_of_willing hmade.willing hfits
    refine ⟨_, _, Spool.drains hp, _, hhouses.stores hmade.willing hfits,
      hnew.accounts (htotal ?_), fun q hq => by cases hq⟩
    rw [hmake]
    exact htold
  | table hdb params registry hs =>
    obtain ⟨hdb', hlimit, hpage⟩ := TableStore.create_opened hdb params registry hs
    exact ⟨_, _, TableStore.drains, hlimit, hpage, hdb'⟩

theorem Course.keeps_start {sound : Option Batch → σ → Prop} (maxAge : Nat)
    {counters : RelayCounters} (hc : counters.backpressure = false) (i : Intake) (broker : β)
    {store : σ} (hs : sound none store) :
    (Course.start maxAge counters i broker store).Keeps sound :=
  ⟨hc, hs⟩

/-- In every run over a spool or a table, whatever the broker does: after a pass that ended because
the store had no batch, no event is parked and the gauge is down exactly if the pass had committed
a batch or no event was parked before. This holds at the end of the pass and until the courier has
dealt with the event that was parked. -/
theorem pause_over_iff (C : Connector β) {B : Buffer σ} {store : σ} (ho : B.IsOpened store)
    (maxAge : Nat) {counters : RelayCounters} (hc : counters.backpressure = false) (i : Intake)
    (broker : β) {c c' : Course β σ} {pass : Nat}
    (hr : Course.Reaches C B (.start maxAge counters i broker store) c)
    (hp : c.courier.phase = .reading pass) (hnone : (B.read c.world.store).1 = .ok none)
    (hb : Course.Busy C B (c.call C B) c') :
    (c'.courier.parked = none ∧ c'.courier.counters.backpressure = false) ↔
      (0 < pass ∨ c.courier.parked = none) := by
  obtain ⟨sound, empty, hB, hstore⟩ := ho.drains
  have hstart := Course.keeps_start maxAge hc i broker hstore
  exact (hstart.reaches hB hr).parked_iff hB hp hnone hb

/-- An event that is still parked after such a pass stays parked, and nothing is received any
more. -/
theorem paused_for_good (C : Connector β) {B : Buffer σ} {store : σ} (ho : B.IsOpened store)
    (maxAge : Nat) {counters : RelayCounters} (hc : counters.backpressure = false) (i : Intake)
    (broker : β) {c c' : Course β σ} {e : Event}
    (hr : Course.Reaches C B (.start maxAge counters i broker store) c)
    (hp : c.courier.phase = .reading 0) (hnone : (B.read c.world.store).1 = .ok none)
    (he : c.courier.parked = some e) (hr' : Course.Reaches C B (c.call C B) c') :
    c'.courier.parked = some e ∧ c'.courier.isReceiving = false := by
  obtain ⟨sound, empty, hB, hstore⟩ := ho.drains
  have hkeeps := (Course.keeps_start maxAge hc i broker hstore).reaches hB hr
  obtain ⟨hcourier, hworld⟩ := Course.call_reading_none (C := C) hp hnone
  have hsound := hkeeps.store
  rw [hp] at hsound
  have hread := hB.read c.world.store hsound
  rw [hnone] at hread
  have hpaused : (c.call C B).Paused sound empty e := by
    refine ⟨by rw [hcourier]; exact he, .inl (by rw [hcourier]; rfl), ?_, ?_⟩
    · rw [hworld]
      exact hread
    · rw [hworld]
      exact hB.empty_read c.world.store hsound hnone
  have hend := hpaused.reaches hB hr'
  exact ⟨hend.parked, hend.isReceiving⟩

/-! ## A full spool -/

namespace Course

/-- A directory with one event file. -/
def fullPlace (text : String) : Place where
  reached := ⟨["q"], 40⟩
  room := 4000
  found := [(Spool.fileName Spool.eventStem 1, .file (Text.octets text) Disk.privateFile)]

def fullDisk (text : String) : Disk :=
  ⟨.directory [("q", .directory (fullPlace text).found Disk.privateDirectory)]
      Disk.privateDirectory,
    .ok (fullPlace text).reached, (fullPlace text).room, ⟨fun _ => none, fun _ => 0, 4095⟩, 0, 0⟩

/-- A spool is opened there that may take up one octet. -/
def fullOpening (text : String) : Except Fault Spool × Registry × Disk :=
  Spool.create ⟨some "q", none, some 1⟩ [] (fullDisk text)

def fullSpool (text : String) : Spool :=
  ⟨Spool.defaultFileLimit, some 1, none, 1, (Text.octets text).length, .zero true⟩

/-- An event waits for a relay over this spool, and the broker takes none. -/
def fullWaiting (text : String) : Course Nat (Spool × Disk) :=
  start 300 .zero ⟨1, [⟨0, .new "b"⟩], [], [], 1, false⟩ 0 (fullSpool text, (fullOpening text).2.2)

/-- The event is received, and six calls later it is parked. -/
def fullParked (text : String) : Course Nat (Spool × Disk) :=
  calls quotaConnector Spool.buffer 6
    { fullWaiting text with
      courier := (fullWaiting text).courier.receive (.new "b")
      intake := ⟨1, [], [], [], 1, false⟩ }

/-- The broker takes events again, and a pass has made so many calls. -/
def fullAfter (text : String) (n : Nat) : Course Nat (Spool × Disk) :=
  calls quotaConnector Spool.buffer n
    { fullParked text with
      world := { (fullParked text).world with broker := 5 }
      courier := (fullParked text).courier.beginPass }

theorem reaches_fullAfter (text : String) (hidle : (fullParked text).courier.phase = .idle)
    (n : Nat) : Reaches quotaConnector Spool.buffer (fullWaiting text) (fullAfter text n) := by
  refine .head (.receive ⟨0, .new "b"⟩ _ rfl rfl rfl) ?_
  refine (reaches_calls _ _ 6 _).trans ?_
  refine .head (.broker 5) ?_
  refine .head (.pass hidle) ?_
  exact reaches_calls _ _ n _

theorem isOpened_fullSpool (text : String) (hopen : (fullOpening text).1 = .ok (fullSpool text)) :
    Spool.buffer.IsOpened (fullSpool text, (fullOpening text).2.2) := by
  have hfile : ∀ name node, Named.get? (fullPlace text).found name = some node →
      ∃ c mode, node = .file c mode := by
    intro name node hg
    have hin := Named.mem_of_get? hg
    obtain ⟨-, rfl⟩ := Prod.mk.inj (List.mem_singleton.mp hin)
    exact ⟨_, _, rfl⟩
  have hunlinked : (fullPlace text).IsUnlinked := by
    constructor
    · intro name _ target ht
      obtain ⟨c, mode, hc⟩ := hfile name _ ht
      cases hc
    · intro n target ht
      obtain ⟨c, mode, hc⟩ := hfile _ _ ht
      cases hc
  have hmake : (fullDisk text).makeDirectory "q" =
      (.ok (), { fullDisk text with calls := 1 }) := rfl
  refine .spool hunlinked ?_ ⟨some "q", none, some 1⟩ [] hmake ?_ hopen
  · intro f hf
    obtain ⟨-, mode, hm⟩ := Spool.mem_files hf
    obtain ⟨hname, -⟩ := Prod.mk.inj (List.mem_singleton.mp hm)
    rw [hname]
    have hlen : (Spool.fileName Spool.eventStem 1).utf8ByteSize = 39 :=
      Spool.utf8ByteSize_fileName (by decide)
    constructor
    · show ((Spool.fileName Spool.eventStem 1).utf8ByteSize : Int) ≤ 4000
      rw [hlen]
      decide
    · rw [hlen]
      decide
  · exact ⟨rfl, rfl, ⟨Disk.privateDirectory, by rfl⟩, List.pairwise_singleton _ _, fun _ => rfl⟩

end Course

/-- The file holds an event. The pass publishes and commits it, so the parked event follows. -/
theorem pause_over_iff_committed :
    (Course.fullAfter "\x7b\"id\":\"a\"\x7d\n" 8).courier.parked = some (.new "b") ∧
    (Course.fullAfter "\x7b\"id\":\"a\"\x7d\n" 12).courier.parked = none ∧
    (Course.fullAfter "\x7b\"id\":\"a\"\x7d\n" 12).courier.counters.backpressure = false ∧
    (Course.fullAfter "\x7b\"id\":\"a\"\x7d\n" 12).world.published = [.new "a", .new "b"] := by
  have hb : Course.Busy quotaConnector Spool.buffer
      ((Course.fullAfter "\x7b\"id\":\"a\"\x7d\n" 8).call quotaConnector Spool.buffer)
      (Course.fullAfter "\x7b\"id\":\"a\"\x7d\n" 12) := by
    refine .tail (.tail (.tail .refl ?_ .call) ?_ .call) ?_ .call
    · decide +kernel
    · decide +kernel
    · decide +kernel
  have hopened := Course.isOpened_fullSpool "\x7b\"id\":\"a\"\x7d\n" (by decide +kernel)
  have hreaches := Course.reaches_fullAfter "\x7b\"id\":\"a\"\x7d\n" (by decide +kernel) 8
  have hreading : (Course.fullAfter "\x7b\"id\":\"a\"\x7d\n" 8).courier.phase = .reading 1 := by
    decide +kernel
  have hover := pause_over_iff quotaConnector hopened 300 rfl
    ⟨1, [⟨0, .new "b"⟩], [], [], 1, false⟩ 0 hreaches hreading (by decide +kernel) hb
  have hend := hover.mpr (.inl Nat.one_pos)
  exact ⟨by decide +kernel, hend.1, hend.2, by decide +kernel⟩

/-- The file holds a damaged line only. The pass sets it aside and removes the file, so the store is
empty and has room; but the pass has committed nothing, and the event stays parked. -/
theorem pause_outlives_pass :
    Spool.buffer.IsOpened (Course.fullSpool "x\n", (Course.fullOpening "x\n").2.2) ∧
    Course.Reaches quotaConnector Spool.buffer (Course.fullWaiting "x\n")
      (Course.fullAfter "x\n" 1) ∧
    (Course.fullAfter "x\n" 1).courier.phase = .reading 0 ∧
    (Spool.buffer.read (Course.fullAfter "x\n" 1).world.store).1 = .ok none ∧
    (Course.fullAfter "x\n" 2).courier.phase = .idle ∧
    (Course.fullAfter "x\n" 2).world.store.1.total = 0 ∧
    (Course.fullAfter "x\n" 2).courier.parked = some (.new "b") ∧
    (Course.fullAfter "x\n" 2).courier.counters.backpressure = true := by
  have hopened := Course.isOpened_fullSpool "x\n" (by decide +kernel)
  have hreaches := Course.reaches_fullAfter "x\n" (by decide +kernel) 1
  exact ⟨hopened, hreaches, by decide +kernel, by decide +kernel, by decide +kernel,
    by decide +kernel, by decide +kernel, by decide +kernel⟩

end AuditRelay
