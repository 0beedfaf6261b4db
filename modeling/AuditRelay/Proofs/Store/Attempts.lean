import AuditRelay.Proofs.Store.Told
import Mathlib.Data.List.Forall2

/-!
# AuditRelay.Proofs.Store.Attempts — what an operation of a spool may come to

For each operation, on a host that may refuse any call, there is one statement about what it makes of
the spool, of the event files and of the dead letters. `FileRead` and `BatchRead` say it for reading,
file by file; `Wrote` for writing; `IsFresh` for opening. Later proofs cite these and open no
operation.

An outcome that a willing host excludes says so, and what a spool counts along is given exactly, or as
far as it is told the sizes that it asks for.
-/

namespace AuditRelay

/-- The clock shows nothing behind the largest stamp. -/
def Host.IsTimely (host : Host) : Prop := ∀ k, host.clock k ≤ Spool.maxStamp

namespace Spool

variable {p : Place} {host : Host} {s : Spool} {d : Disk} {fs : Named Octets} {ls : Nat → Octets}
  {name : String} {c : Octets}

/-- What a spool keeps while it writes nothing. Its total does not grow, and no error is forgotten. -/
structure Follows (s s' : Spool) : Prop where
  fileLimit : s'.fileLimit = s.fileLimit
  totalLimit : s'.totalLimit = s.totalLimit
  current : s'.current = s.current ∨ s'.current = none
  stamp : s.highestStamp ≤ s'.highestStamp
  total : s'.total ≤ s.total
  errors : s.counters.errors ⊆ s'.counters.errors

theorem Follows.refl (s : Spool) : Follows s s :=
  ⟨rfl, rfl, .inl rfl, le_refl _, le_refl _, List.Subset.refl _⟩

theorem Follows.trans {s₁ s₂ s₃ : Spool} (h : Follows s₁ s₂) (h' : Follows s₂ s₃) :
    Follows s₁ s₃ := by
  refine ⟨h'.fileLimit.trans h.fileLimit, h'.totalLimit.trans h.totalLimit, ?_,
    h.stamp.trans h'.stamp, h'.total.trans h.total, fun op hop => h'.errors (h.errors hop)⟩
  rcases h'.current with hc | hc
  · rw [hc]
    exact h.current
  · exact .inr hc

/-- Something may be taken off the total, and anything counted. -/
theorem follows_with (s : Spool) (n : Nat) {counters : StoreCounters}
    (h : s.counters.errors ⊆ counters.errors) :
    Follows s { s with total := s.total - n, counters } :=
  ⟨rfl, rfl, .inl rfl, le_refl _, Nat.sub_le _ _, h⟩

/-! ## Stamps -/

/-- A stamp that has just been given. -/
structure NewStamp (host : Host) (s : Spool) (n : Nat) : Prop where
  behind : s.highestStamp < n
  timely : host.IsTimely → n ≤ maxStamp

theorem newStamp_housed (s : Spool) (h : d.Houses p host fs ls) :
    (∃ n d', s.newStamp d = (.ok n, { s with highestStamp := n }, d') ∧ NewStamp host s n ∧
      d'.Houses p host fs ls) ∨
    (∃ d', s.newStamp d = (.error .stampsExhausted, s, d') ∧ maxStamp ≤ s.highestStamp ∧
      d'.Houses p host fs ls) := by
  have h' := h.counted d.calls (d.readings + 1)
  by_cases hmax : s.highestStamp < maxStamp
  · refine .inl ⟨max (d.host.clock d.readings) (s.highestStamp + 1), _, ?_, ⟨?_, fun ht => ?_⟩, h'⟩
    · simp only [newStamp, Disk.now, if_pos hmax]
    · exact Nat.lt_of_lt_of_le (Nat.lt_succ_self _) (Nat.le_max_right _ _)
    · exact max_le (h.host_eq ▸ ht d.readings) hmax
  · refine .inr ⟨_, ?_, Nat.not_lt.mp hmax, h'⟩
    simp only [newStamp, Disk.now, if_neg hmax]

/-! ## Removing -/

/-- A file that is removed takes its size off the total, if the size is told. -/
theorem removeFile_housed (s : Spool) (h : d.Houses p host fs ls) (hn : isEventFile name = true) :
    (∃ size d', s.removeFile d name = (.ok (), { s with total := s.total - size }, d') ∧
      d'.Houses p host (Named.erase name fs) ls ∧
      (p.IsRegular ∨ (∃ c, Named.get? fs name = some c) → d.tellsSize name = true →
        size = ((Named.get? fs name).getD []).length)) ∨
    (∃ f d', s.removeFile d name = s.failed .commitRemove f d' ∧ d'.Houses p host fs ls ∧
      ¬ (host.IsWilling ∧ p.Fits name ∧ ∃ c, Named.get? fs name = some c)) := by
  have h₁ := h.sizeOrZero name
  have htold := h.sizeOrZero_told hn
  rcases hsize : sizeOrZero d name with ⟨n, d₁⟩
  rw [hsize] at h₁ htold
  rcases h₁.remove hn with ⟨d₂, hremove, h₂⟩ | ⟨f, d₂, hremove, h₂, hno⟩
  · refine .inl ⟨n, d₂, ?_, h₂, htold⟩
    simp only [removeFile, hsize, hremove]
  · refine .inr ⟨f, d₂, ?_, h₂, hno⟩
    simp only [removeFile, hsize, hremove]

/-! ## Reading a file -/

/-- One dead letter for each damaged line, in order. -/
def AreLettersOf (name : String) (xs : List Damaged) (letters : List DeadLetter) : Prop :=
  List.Forall₂ (fun x l => ∃ timestamp, l = x.letter timestamp name) xs letters

theorem areLettersOf_letters (d : Disk) (name : String) (xs : List Damaged) :
    AreLettersOf name xs (letters d name xs).1 := by
  rw [AreLettersOf, List.forall₂_iff_get]
  refine ⟨by simp [letters], ?_⟩
  intro i hi hi'
  exact ⟨Text.timestamp (d.host.clock (d.readings + i)), by simp [letters]⟩

theorem AreLettersOf.length_eq {xs : List Damaged} {letters : List DeadLetter}
    (h : AreLettersOf name xs letters) : letters.length = xs.length :=
  (List.Forall₂.length_eq h).symm

/-- The damaged lines of a file. -/
def damagedIn (contents : Octets) : List Damaged := (sift (lines contents)).damaged

/-- What is left of a file without its damaged lines. -/
def keptOf (contents : Octets) : Octets := (sift (lines contents)).kept

/-- The contents are those of before, or what is kept of them. -/
def IsLeftOf (c c' : Octets) : Prop := c' = c ∨ c' = keptOf c

theorem IsLeftOf.eventsIn_eq {c c' : Octets} (h : IsLeftOf c c') : eventsIn c' = eventsIn c := by
  rcases h with rfl | rfl
  · rfl
  · exact eventsIn_kept c

theorem IsLeftOf.isWhole {c c' : Octets} (h : IsLeftOf c c') (hw : IsWhole c) : IsWhole c' := by
  rcases h with rfl | rfl
  · exact hw
  · exact isWhole_kept _

/-- The spool after so many damaged lines have been counted. -/
def counted (s : Spool) (damaged : Nat) : Spool :=
  { s with counters := s.counters.countErrors .corruptedEvent damaged }

section

variable {stamp size : Nat} {xs : List DeadLetter} {bs : Octets} {d₁ d₂ : Disk} {f : SystemFault}

theorem setAside_unset {f : Fault}
    (hw : writeLetters d (fileName deadLetterStem stamp) xs = (.error f, d₁)) :
    s.setAside d stamp name xs size bs =
      ({ s with counters := s.counters.countError .deadLetterWriteFailed }, d₁) := by
  simp only [setAside, hw]

theorem setAside_unreplaced (hw : writeLetters d (fileName deadLetterStem stamp) xs = (.ok (), d₁))
    (hr : replace d₁ name bs = (.error f, d₂)) :
    s.setAside d stamp name xs size bs =
      ({ s with
        counters :=
          (s.counters.countErrors .deadLetterWrite xs.length).countError .deadLetterReplace },
        d₂) := by
  simp only [setAside, hw, hr]

theorem setAside_replaced (hw : writeLetters d (fileName deadLetterStem stamp) xs = (.ok (), d₁))
    (hr : replace d₁ name bs = (.ok (), d₂)) :
    s.setAside d stamp name xs size bs =
      ({ s with
        total := s.total - (size - bs.length)
        counters := s.counters.countErrors .deadLetterWrite xs.length }, d₂) := by
  simp only [setAside, hw, hr]

end

section

variable {handle : Handle} {d₁ d₂ d₃ : Disk} {s₁ : Spool}

/-- Nothing is set aside of a file without damaged lines. -/
theorem readFile_clean (hopen : d.openForReading name = (.ok handle, d₁))
    (hread : d₁.readAll handle = (.ok c, d₂)) (hclean : damagedIn c = []) :
    s.readFile d name = (.ok (eventsIn c), s, d₂) := by
  rw [damagedIn] at hclean
  simp only [readFile, hopen, hread, hclean, List.isEmpty_nil, if_true, eventsIn]

/-- Without a stamp for its dead letters a file with damaged lines is not read. -/
theorem readFile_unstamped {f : Fault} (hopen : d.openForReading name = (.ok handle, d₁))
    (hread : d₁.readAll handle = (.ok c, d₂)) (hdamaged : damagedIn c ≠ [])
    (hstamp : (s.counted (damagedIn c).length).newStamp (letters d₂ name (damagedIn c)).2 =
      (.error f, s₁, d₃)) :
    s.readFile d name = (.error f, s₁, d₃) := by
  have hsome : (sift (lines c)).damaged.isEmpty = false := List.isEmpty_eq_false_iff.mpr hdamaged
  simp only [letters, counted, damagedIn] at hstamp
  simp only [readFile, hopen, hread, hsome, Bool.false_eq_true, if_false, letters, hstamp]

/-- The damaged lines are set aside under the stamp. -/
theorem readFile_stamped {n : Nat} (hopen : d.openForReading name = (.ok handle, d₁))
    (hread : d₁.readAll handle = (.ok c, d₂)) (hdamaged : damagedIn c ≠ [])
    (hstamp : (s.counted (damagedIn c).length).newStamp (letters d₂ name (damagedIn c)).2 =
      (.ok n, s₁, d₃)) :
    s.readFile d name =
      (.ok (eventsIn c), s₁.setAside d₃ n name (letters d₂ name (damagedIn c)).1 c.length
        (keptOf c)) := by
  have hsome : (sift (lines c)).damaged.isEmpty = false := List.isEmpty_eq_false_iff.mpr hdamaged
  simp only [letters, counted, damagedIn] at hstamp
  simp only [readFile, hopen, hread, hsome, Bool.false_eq_true, if_false, letters, hstamp, eventsIn,
    damagedIn, keptOf]

end

/-- What reading a file comes to: the answer, the spool, the event files and the dead letters. The
total loses what the file has lost. -/
inductive FileRead (p : Place) (host : Host) (s : Spool) (fs : Named Octets) (ls : Nat → Octets)
    (name : String) (c : Octets) :
    Except Fault (List Event) → Spool → Named Octets → (Nat → Octets) → Prop where
  | unread (op : FailurePoint) (f : SystemFault) (hop : op = .readOpen ∨ op = .readScan)
      (hno : ¬ (host.IsWilling ∧ p.Fits name)) :
      FileRead p host s fs ls name c (.error (.io (.counted op) f))
        { s with counters := s.counters.countError op } fs ls
  | clean (hd : damagedIn c = []) : FileRead p host s fs ls name c (.ok (eventsIn c)) s fs ls
  /-- There is no stamp left for dead letters. -/
  | exhausted (hd : damagedIn c ≠ []) (hmax : maxStamp ≤ s.highestStamp) :
      FileRead p host s fs ls name c (.error .stampsExhausted)
        (s.counted (damagedIn c).length) fs ls
  /-- The dead letters could not be written. -/
  | unset (n : Nat) (ls' : Nat → Octets) (hd : damagedIn c ≠ []) (hn : NewStamp host s n)
      (hls : host.IsWilling → ls' = ls) (hno : ¬ (p.Serves host ∧ n < stampLimit)) :
      FileRead p host s fs ls name c (.ok (eventsIn c))
        { s with
          highestStamp := n
          counters := (s.counters.countErrors .corruptedEvent (damagedIn c).length).countError
            .deadLetterWriteFailed } fs ls'
  /-- The dead letters are written, but the file could not be replaced. -/
  | unreplaced (n : Nat) (letters : List DeadLetter) (hd : damagedIn c ≠ [])
      (hn : NewStamp host s n) (hletters : AreLettersOf name (damagedIn c) letters)
      (hno : ¬ (p.Serves host ∧ p.Fits name ∧ p.Fits (tempName name))) :
      FileRead p host s fs ls name c (.ok (eventsIn c))
        { s with
          highestStamp := n
          counters := ((s.counters.countErrors .corruptedEvent (damagedIn c).length).countErrors
            .deadLetterWrite letters.length).countError .deadLetterReplace }
        fs (Function.update ls n (ls n ++ letters.flatMap DeadLetter.written))
  | replaced (n : Nat) (letters : List DeadLetter) (hd : damagedIn c ≠ [])
      (hn : NewStamp host s n) (hletters : AreLettersOf name (damagedIn c) letters) :
      FileRead p host s fs ls name c (.ok (eventsIn c))
        { s with
          highestStamp := n
          total := s.total - (c.length - (keptOf c).length)
          counters := (s.counters.countErrors .corruptedEvent (damagedIn c).length).countErrors
            .deadLetterWrite letters.length }
        (Named.insert name (keptOf c) fs)
        (Function.update ls n (ls n ++ letters.flatMap DeadLetter.written))

theorem readFile_housed (s : Spool) (h : d.Houses p host fs ls) (hp : p.IsUnlinked)
    (hg : Named.get? fs name = some c) :
    ∃ r s' d' fs' ls', s.readFile d name = (r, s', d') ∧ d'.Houses p host fs' ls' ∧
      FileRead p host s fs ls name c r s' fs' ls' := by
  rcases h.read hg with ⟨d₁, d₂, hopen, hread, h₂⟩ | ⟨f, d₁, hopen, h₁, hno⟩ |
    ⟨f, d₁, d₂, hopen, hread, h₂, hno⟩
  · by_cases hd : damagedIn c = []
    · exact ⟨_, s, d₂, fs, ls, readFile_clean hopen hread hd, h₂, .clean hd⟩
    · have hwritten := areLettersOf_letters d₂ name (damagedIn c)
      have h₂' := h₂.counted d₂.calls (d₂.readings + (damagedIn c).length)
      -- three things may fail here: the stamp, the dead letters and the replacement
      rcases newStamp_housed (s.counted (damagedIn c).length) h₂' with
        ⟨n, d₃, hstamp, hn, h₃⟩ | ⟨d₃, hstamp, hmax, h₃⟩
      · have hn' : NewStamp host s n := ⟨hn.behind, hn.timely⟩
        have hrun : s.readFile d name =
            (.ok (eventsIn c), { s.counted (damagedIn c).length with highestStamp := n }.setAside d₃
              n name (letters d₂ name (damagedIn c)).1 c.length (keptOf c)) :=
          readFile_stamped hopen hread hd hstamp
        rcases h₃.writeLetters hp n (letters d₂ name (damagedIn c)).1 with
          ⟨d₄, hset, h₄⟩ | ⟨f, d₄, ls', hset, h₄, hls, hno⟩
        · rcases h₄.replace hp hg (keptOf c) with ⟨d₅, hreplace, h₅⟩ | ⟨f, d₅, hreplace, h₅, hno⟩
          · refine ⟨_, _, d₅, _, _, ?_, h₅, .replaced n _ hd hn' hwritten⟩
            rw [hrun, setAside_replaced hset hreplace]
            rfl
          · refine ⟨_, _, d₅, _, _, ?_, h₅, .unreplaced n _ hd hn' hwritten hno⟩
            rw [hrun, setAside_unreplaced hset hreplace]
            rfl
        · refine ⟨_, _, d₄, _, ls', ?_, h₄, .unset n ls' hd hn' hls hno⟩
          rw [hrun, setAside_unset hset]
          rfl
      · exact ⟨_, _, d₃, fs, ls, readFile_unstamped hopen hread hd hstamp, h₃, .exhausted hd hmax⟩
  · refine ⟨_, _, d₁, fs, ls, ?_, h₁, .unread .readOpen f (.inl rfl) hno⟩
    simp only [readFile, hopen, failed]
  · refine ⟨_, _, d₂, fs, ls, ?_, h₂, .unread .readScan f (.inr rfl) hno⟩
    simp only [readFile, hopen, hread, failed]

namespace FileRead

variable {r : Except Fault (List Event)} {s' : Spool} {fs' : Named Octets} {ls' : Nat → Octets}

/-- Reading a file leaves the others. -/
theorem files (h : FileRead p host s fs ls name c r s' fs' ls') :
    fs' = fs ∨ fs' = Named.insert name (keptOf c) fs := by
  cases h with
  | replaced => exact .inr rfl
  | unread | clean | exhausted | unset | unreplaced => exact .inl rfl

/-- If it is the first one it still is. -/
theorem first {rest : Named Octets}
    (h : FileRead p host s ((name, c) :: rest) ls name c r s' fs' ls') :
    ∃ c', IsLeftOf c c' ∧ fs' = (name, c') :: rest := by
  rcases h.files with rfl | rfl
  · exact ⟨c, .inl rfl, rfl⟩
  · exact ⟨keptOf c, .inr rfl, by rw [Named.insert, if_pos rfl]⟩

theorem follows (h : FileRead p host s fs ls name c r s' fs' ls') :
    Follows s s' ∧ s'.current = s.current := by
  cases h with
  | unread => exact ⟨⟨rfl, rfl, .inl rfl, le_refl _, le_refl _, List.subset_cons_self _ _⟩, rfl⟩
  | clean => exact ⟨.refl s, rfl⟩
  | exhausted =>
    exact ⟨⟨rfl, rfl, .inl rfl, le_refl _, le_refl _, List.subset_append_right _ _⟩, rfl⟩
  | unset n _ _ hn =>
    exact ⟨⟨rfl, rfl, .inl rfl, hn.behind.le, le_refl _,
      List.Subset.trans (List.subset_append_right _ _) (List.subset_cons_self _ _)⟩, rfl⟩
  | unreplaced n letters _ hn =>
    exact ⟨⟨rfl, rfl, .inl rfl, hn.behind.le, le_refl _,
      List.Subset.trans (List.subset_append_right _ _)
        (List.Subset.trans (List.subset_append_right _ _) (List.subset_cons_self _ _))⟩, rfl⟩
  | replaced n letters _ hn =>
    exact ⟨⟨rfl, rfl, .inl rfl, hn.behind.le, Nat.sub_le _ _,
      List.Subset.trans (List.subset_append_right _ _) (List.subset_append_right _ _)⟩, rfl⟩

/-- What the file has lost is off the total. -/
theorem total_add (h : FileRead p host s fs ls name c r s' fs' ls') (ho : Named.IsOrdered fs)
    (hg : Named.get? fs name = some c) (hle : octetsIn fs ≤ s.total) :
    s'.total + octetsIn fs = s.total + octetsIn fs' := by
  cases h with
  | replaced n letters hd =>
    have hsum := octetsIn_insert ho name (keptOf c)
    rw [hg, Option.getD_some] at hsum
    have hfile := octetsIn_erase ho hg
    have hkept : (keptOf c).length ≤ c.length := length_kept_le hd
    show s.total - (c.length - (keptOf c).length) + _ = _
    omega
  | unread | clean | exhausted | unset | unreplaced => rfl

end FileRead

/-! ## Reading a batch -/

/-- Letting go of the file that is read next. -/
def released (s : Spool) (name : String) : Spool :=
  if s.current = some name then { s with current := none } else s

theorem released_follows (s : Spool) (name : String) : Follows s (s.released name) := by
  by_cases hc : s.current = some name
  · rw [released, if_pos hc]
    exact ⟨rfl, rfl, .inr rfl, le_refl _, le_refl _, List.Subset.refl _⟩
  · rw [released, if_neg hc]
    exact .refl s

theorem current_released (s : Spool) (name : String) : (s.released name).current ≠ some name := by
  by_cases hc : s.current = some name
  · rw [released, if_pos hc]
    exact (Option.some_ne_none name).symm
  · rw [released, if_neg hc]
    exact hc

theorem total_released (s : Spool) (name : String) : (s.released name).total = s.total := by
  rw [released]
  split <;> rfl

theorem counters_released (s : Spool) (name : String) :
    (s.released name).counters = s.counters := by
  rw [released]
  split <;> rfl

/-- The first file has been read. If the total was right it is so again. -/
theorem FileRead.total_first {r : Except Fault (List Event)} {s' : Spool} {rest fs' : Named Octets}
    {ls' : Nat → Octets}
    (h : FileRead p host (s.released name) ((name, c) :: rest) ls name c r s' fs' ls')
    (ho : Named.IsOrdered ((name, c) :: rest)) (ht : s.total = octetsIn ((name, c) :: rest)) :
    s'.total = octetsIn fs' := by
  have htotal := total_released s name
  have hadd := h.total_add ho (Named.get?_first name c rest) (by rw [htotal, ht])
  omega

/-- What reading a batch comes to. Files without events are removed. -/
inductive BatchRead (p : Place) (host : Host) : Spool → Named Octets → (Nat → Octets) →
    Except Fault (Option Batch) → Spool → Named Octets → (Nat → Octets) → Prop where
  | nothing (s : Spool) (ls : Nat → Octets) : BatchRead p host s [] ls (.ok none) s [] ls
  | failed (s : Spool) (name : String) (c : Octets) (rest : Named Octets) (ls : Nat → Octets)
      (f : Fault) (s' : Spool) (fs' : Named Octets) (ls' : Nat → Octets)
      (hr : FileRead p host (s.released name) ((name, c) :: rest) ls name c (.error f) s' fs' ls') :
      BatchRead p host s ((name, c) :: rest) ls (.error f) s' fs' ls'
  | batch (s : Spool) (name : String) (c : Octets) (rest : Named Octets) (ls : Nat → Octets)
      (s' : Spool) (fs' : Named Octets) (ls' : Nat → Octets) (hne : eventsIn c ≠ [])
      (hr : FileRead p host (s.released name) ((name, c) :: rest) ls name c (.ok (eventsIn c)) s'
        fs' ls') :
      BatchRead p host s ((name, c) :: rest) ls (.ok (some ⟨eventsIn c, .file name⟩))
        { s' with counters := s'.counters.countReads (eventsIn c).length } fs' ls'
  /-- A file without events could not be removed. -/
  | unremoved (s : Spool) (name : String) (c : Octets) (rest : Named Octets) (ls : Nat → Octets)
      (f : SystemFault) (s' : Spool) (fs' : Named Octets) (ls' : Nat → Octets) (he : eventsIn c = [])
      (hr : FileRead p host (s.released name) ((name, c) :: rest) ls name c (.ok []) s' fs' ls')
      (hno : ¬ (host.IsWilling ∧ p.Fits name)) :
      BatchRead p host s ((name, c) :: rest) ls (.error (.io (.counted .commitRemove) f))
        { s' with counters := s'.counters.countError .commitRemove } fs' ls'
  | pass (s : Spool) (name : String) (c c' : Octets) (rest : Named Octets) (ls : Nat → Octets)
      (s₁ : Spool) (ls₁ : Nat → Octets) (size : Nat) (he : eventsIn c = [])
      (hr : FileRead p host (s.released name) ((name, c) :: rest) ls name c (.ok []) s₁
        ((name, c') :: rest) ls₁)
      (hsize : host.IsWilling → p.Fits name → size = c'.length)
      {r : Except Fault (Option Batch)} {s' : Spool} {fs' : Named Octets} {ls' : Nat → Octets}
      (hrest : BatchRead p host { s₁ with total := s₁.total - size } rest ls₁ r s' fs' ls') :
      BatchRead p host s ((name, c) :: rest) ls r s' fs' ls'

theorem readFirst_housed (s : Spool) (h : d.Houses p host fs ls) (hp : p.IsUnlinked) :
    ∃ r s' d' fs' ls', s.readFirst d (fs.map Prod.fst) = (r, s', d') ∧
      d'.Houses p host fs' ls' ∧ BatchRead p host s fs ls r s' fs' ls' := by
  -- the files that are left, and the directory holds just these
  induction fs generalizing s d ls with
  | nil => exact ⟨_, s, d, [], ls, rfl, h, .nothing s ls⟩
  | cons file rest ih =>
    obtain ⟨name, c⟩ := file
    have hn : isEventFile name = true := h.isEventFile_of_mem List.mem_cons_self
    have hfirst := Named.get?_first name c rest
    have hreleased : (if s.current = some name then { s with current := none } else s) =
        s.released name := rfl
    obtain ⟨r, s₁, d₁, fs₁, ls₁, hread, h₁, hr⟩ := readFile_housed (s.released name) h hp hfirst
    rw [List.map_cons, readFirst, hreleased, hread]
    cases r with
    | error f => exact ⟨_, s₁, d₁, fs₁, ls₁, rfl, h₁, .failed s name c rest ls f s₁ fs₁ ls₁ hr⟩
    | ok events =>
      have hevents : events = eventsIn c := by
        cases hr <;> rfl
      subst hevents
      cases he : eventsIn c with
      | cons e es =>
        rw [he] at hr
        refine ⟨_, _, d₁, fs₁, ls₁, rfl, h₁, ?_⟩
        rw [← he] at hr ⊢
        exact .batch s name c rest ls s₁ fs₁ ls₁ (by rw [he]; exact List.cons_ne_nil _ _) hr
      | nil =>
        rw [he] at hr
        -- the file is the first one, with what is left of it
        obtain ⟨c', -, rfl⟩ := hr.first
        have hthere := Named.get?_first name c' rest
        -- it is removed before the next one is read
        rcases removeFile_housed s₁ h₁ hn with
          ⟨size, d₂, hremove, h₂, htold⟩ | ⟨f, d₂, hremove, h₂, hno⟩
        · rw [h₁.ordered.erase_first] at h₂
          have hsize : host.IsWilling → p.Fits name → size = c'.length := by
            intro hw hfit
            have hsize := htold (.inr ⟨c', hthere⟩)
              (h₁.tellsSize_of_willing hn (.inr ⟨c', hthere⟩) hw hfit)
            rw [hsize, hthere, Option.getD_some]
          obtain ⟨r, s', d', fs', ls', hnext, h', hrest⟩ :=
            ih { s₁ with total := s₁.total - size } h₂
          refine ⟨r, s', d', fs', ls', ?_, h',
            .pass s name c c' rest ls s₁ ls₁ size he hr hsize hrest⟩
          simp only [hremove, hnext]
        · refine ⟨_, _, d₂, _, ls₁, ?_, h₂, .unremoved s name c rest ls f s₁ _ ls₁ he hr ?_⟩
          · simp only [hremove, failed]
          · rintro ⟨hw, hfit⟩
            exact hno ⟨hw, hfit, c', hthere⟩

theorem nextBatch_housed (s : Spool) (h : d.Houses p host fs ls) (hp : p.IsUnlinked) :
    ∃ r s' d' fs' ls', s.nextBatch d = (r, s', d') ∧ d'.Houses p host fs' ls' ∧
      ((∃ f, r = .error f ∧ s' = s ∧ fs' = fs ∧ ls' = ls ∧ ¬ host.IsWilling) ∨
        BatchRead p host s fs ls r s' fs' ls') := by
  rcases h.listFiles with ⟨d₁, hlist, h₁⟩ | ⟨f, d₁, hlist, h₁, hno⟩
  · obtain ⟨r, s', d', fs', ls', hread, h', hr⟩ := readFirst_housed s h₁ hp
    refine ⟨r, s', d', fs', ls', ?_, h', .inr hr⟩
    simp only [nextBatch, hlist, hread]
  · refine ⟨.error f, s, d₁, fs, ls, ?_, h₁, .inl ⟨f, rfl, rfl, rfl, rfl, hno⟩⟩
    simp only [nextBatch, hlist]

theorem BatchRead.follows {r : Except Fault (Option Batch)} {s' : Spool} {fs' : Named Octets}
    {ls' : Nat → Octets} (h : BatchRead p host s fs ls r s' fs' ls') : Follows s s' := by
  induction h with
  | nothing s ls => exact .refl s
  | failed s name c rest ls f s' fs' ls' hr => exact (released_follows s name).trans hr.follows.1
  | batch s name c rest ls s' fs' ls' hne hr =>
    exact ((released_follows s name).trans hr.follows.1).trans
      (follows_with s' 0 (List.Subset.refl _))
  | unremoved s name c rest ls f s' fs' ls' he hr hno =>
    exact ((released_follows s name).trans hr.follows.1).trans
      (follows_with s' 0 (List.subset_cons_self _ _))
  | pass s name c c' rest ls s₁ ls₁ size he hr hsize hrest ih =>
    exact (((released_follows s name).trans hr.follows.1).trans
      (follows_with s₁ size (List.Subset.refl _))).trans ih

/-! ## Writing -/

/-- The file with the stamp has been chosen for the next event: the current one, which is small, or a
new one. The greatest stamp is `highest` then. -/
inductive Aims (host : Host) (s : Spool) (fs : Named Octets) : (n highest : Nat) → Prop where
  | current (n : Nat) (hcurrent : s.current = some (fileName eventStem n))
      (hsmall : ((Named.get? fs (fileName eventStem n)).getD []).length < s.fileLimit) :
      Aims host s fs n s.highestStamp
  | new (n : Nat) (hn : NewStamp host s n) : Aims host s fs n n

theorem Aims.current_or_new {n highest : Nat} (h : Aims host s fs n highest) :
    (s.current = some (fileName eventStem n) ∧ highest = s.highestStamp) ∨
    (NewStamp host s n ∧ highest = n) := by
  cases h with
  | current hcurrent => exact .inl ⟨hcurrent, rfl⟩
  | new hn => exact .inr ⟨hn, rfl⟩

/-- Stamps only grow. -/
theorem Aims.highest_ge {n highest : Nat} (h : Aims host s fs n highest) :
    s.highestStamp ≤ highest := by
  rcases h.current_or_new with ⟨-, hsame⟩ | ⟨hn, hsame⟩
  · exact hsame.ge
  · exact hn.behind.le.trans hsame.ge

/-- The stamp of the chosen file has been given, if that of the current one had been. -/
theorem Aims.stamp_le {n highest : Nat} (h : Aims host s fs n highest)
    (hc : ∀ name, s.current = some name → ∃ m ≤ s.highestStamp, name = fileName eventStem m) :
    n ≤ highest := by
  rcases h.current_or_new with ⟨hcurrent, hsame⟩ | ⟨-, hsame⟩
  · obtain ⟨m, hm, hname⟩ := hc _ hcurrent
    rw [hsame, stamp_injective hname]
    exact hm
  · exact hsame.ge

/-- The spool once the file has been chosen. -/
def aimed (s : Spool) (n highest : Nat) : Spool :=
  { s with current := some (fileName eventStem n), highestStamp := highest }

/-- What the choice of a file for the next event comes to. -/
inductive Choice (p : Place) (host : Host) (s : Spool) (d : Disk) (fs : Named Octets)
    (ls : Nat → Octets) : Except Fault String × Spool × Disk → Prop where
  | chosen (n highest : Nat) (d' : Disk) (h : d'.Houses p host fs ls)
      (ha : Aims host s fs n highest) :
      Choice p host s d fs ls (.ok (fileName eventStem n), { s with highestStamp := highest }, d')
  | exhausted (d' : Disk) (h : d'.Houses p host fs ls) (hmax : maxStamp ≤ s.highestStamp) :
      Choice p host s d fs ls (.error .stampsExhausted, s, d')
  /-- The size of the current file is not told. -/
  | untold (name : String) (f : SystemFault) (d' : Disk) (h : d'.Houses p host fs ls)
      (hc : s.current = some name) (hno : d.tellsSize name = false) :
      Choice p host s d fs ls (s.failed .writeStat f d')

theorem newEventFile_choice (s : Spool) (d : Disk) {d₁ : Disk} (h : d₁.Houses p host fs ls) :
    Choice p host s d fs ls (s.newEventFile d₁) := by
  rw [newEventFile]
  rcases newStamp_housed s h with ⟨n, d', hstamp, hn, h'⟩ | ⟨d', hstamp, hmax, h'⟩
  · rw [hstamp]
    exact .chosen n n d' h' (.new n hn)
  · rw [hstamp]
    exact .exhausted d' h' hmax

theorem target_choice (s : Spool) (h : d.Houses p host fs ls)
    (hc : ∀ name, s.current = some name → ∃ n, name = fileName eventStem n) :
    Choice p host s d fs ls (s.target d) := by
  cases hcur : s.current with
  | none =>
    simp only [target, hcur]
    exact newEventFile_choice s d h
  | some name =>
    obtain ⟨n, rfl⟩ := hc name hcur
    have h₁ := h.size (fileName eventStem n)
    have htold := h.size_told (isEventFile_fileName n)
    rcases hsize : d.size (fileName eventStem n) with ⟨f | size, d₁⟩
    · rw [hsize] at h₁
      by_cases hf : f = .notFound
      · subst hf
        simp only [target, hcur, hsize]
        exact newEventFile_choice s d h₁
      · have hno : d.tellsSize (fileName eventStem n) = false := by
          simp only [Disk.tellsSize, hsize, hf, decide_false, Bool.false_and]
        simp only [target, hcur, hsize]
        exact .untold _ f d₁ h₁ hcur hno
    · rw [hsize] at h₁ htold
      by_cases hlt : size < s.fileLimit
      · -- if the file is there, what is told is its size
        have hsmall : ((Named.get? fs (fileName eventStem n)).getD []).length < s.fileLimit := by
          cases hg : Named.get? fs (fileName eventStem n) with
          | none => exact Nat.lt_of_le_of_lt (Nat.zero_le size) hlt
          | some c =>
            rcases htold (.inr ⟨c, hg⟩) with ⟨c', hg', hlength⟩ | ⟨-, herror⟩ | ⟨f, herror, -⟩
            · rw [hg, Option.some.injEq] at hg'
              rw [Option.getD_some, hg', ← Except.ok.inj hlength]
              exact hlt
            · cases herror
            · cases herror
        have hrun : s.target d = (.ok (fileName eventStem n), s, d₁) := by
          simp only [target, hcur, hsize, if_pos hlt]
        rw [hrun]
        exact .chosen n s.highestStamp d₁ h₁ (.current n hcur hsmall)
      · simp only [target, hcur, hsize, if_neg hlt]
        exact newEventFile_choice s d h₁

/-- What a write comes to: the answer, the spool and the event files. -/
inductive Wrote (p : Place) (host : Host) (s : Spool) (d : Disk) (fs : Named Octets)
    (line : Octets) : Except Fault Unit → Spool → Named Octets → Prop where
  | exhausted (hmax : maxStamp ≤ s.highestStamp) :
      Wrote p host s d fs line (.error .stampsExhausted) s fs
  /-- The size of the current file is not told. -/
  | untold (name : String) (f : SystemFault) (hc : s.current = some name)
      (hno : d.tellsSize name = false) :
      Wrote p host s d fs line (.error (.io (.counted .writeStat) f))
        { s with counters := s.counters.countError .writeStat } fs
  | full (n highest limit : Nat) (ha : Aims host s fs n highest)
      (hlimit : s.totalLimit = some limit) (hle : limit ≤ s.total) :
      Wrote p host s d fs line (.error (.storeFull s.total limit))
        { s.aimed n highest with counters := s.counters.countError .writeFull } fs
  /-- The line may be there all the same, or, if it could not be written, the beginning of it. -/
  | failed (n highest : Nat) (op : FailurePoint) (f : SystemFault) (fs' : Named Octets)
      (ha : Aims host s fs n highest)
      (hroom : ∀ limit, s.totalLimit = some limit → s.total < limit)
      (hop : op ∈ [.writeOpen, .writeIo, .writeSync, .writeClose])
      (hfs : fs' = fs ∨ op ≠ .writeOpen ∧ fs' = Named.insert (fileName eventStem n)
          ((Named.get? fs (fileName eventStem n)).getD [] ++ line) fs ∨
        op = .writeIo ∧ ∃ taken, fs' = Named.insert (fileName eventStem n)
          ((Named.get? fs (fileName eventStem n)).getD [] ++ line.take taken) fs)
      (hno : host.IsWilling → fs' = fs ∧ ¬ (p.IsRegular ∧ p.Fits (fileName eventStem n))) :
      Wrote p host s d fs line (.error (.io (.counted op) f))
        { s.aimed n highest with counters := s.counters.countError op } fs'
  | done (n highest : Nat) (ha : Aims host s fs n highest)
      (htarget : (s.target d).1 = .ok (fileName eventStem n))
      (hroom : ∀ limit, s.totalLimit = some limit → s.total < limit)
      (hfit : p.Fits (fileName eventStem n)) :
      Wrote p host s d fs line (.ok ())
        { s.aimed n highest with
          total := s.total + line.length
          counters := s.counters.countWrite }
        (Named.insert (fileName eventStem n)
          ((Named.get? fs (fileName eventStem n)).getD [] ++ line) fs)

theorem write_housed (s : Spool) (h : d.Houses p host fs ls) (hp : p.IsUnlinked)
    (hc : ∀ name, s.current = some name → ∃ n, name = fileName eventStem n) (e : Event) :
    ∃ r s' d' fs', s.write d e = (r, s', d') ∧ d'.Houses p host fs' ls ∧
      Wrote p host s d fs (e.written ++ [lineFeed]) r s' fs' := by
  have hchoice := target_choice s h hc
  generalize htarget : s.target d = outcome at hchoice
  cases hchoice with
  | chosen n highest d₁ h₁ ha =>
    cases hfull : s.totalLimit.filter (· ≤ s.total) with
    | some limit =>
      obtain ⟨hlimit, hle⟩ := Option.filter_eq_some_iff.mp hfull
      refine ⟨.error (.storeFull s.total limit), _, d₁, fs, ?_, h₁,
        .full n highest limit ha hlimit (of_decide_eq_true hle)⟩
      simp only [write, htarget, hfull, aimed]
    | none =>
      have hroom : ∀ limit, s.totalLimit = some limit → s.total < limit := by
        intro limit hlimit
        rw [hlimit] at hfull
        simpa using hfull
      rcases h₁.writeLine hp (s.aimed n highest) n (e.written ++ [lineFeed]) with
        ⟨d₂, hline, h₂, hfit⟩ | ⟨op, f, d₂, fs', hline, h₂, hop, hfs, hno⟩
      · refine ⟨.ok (), _, d₂, _, ?_, h₂, .done n highest ha (by rw [htarget]) hroom hfit⟩
        rw [aimed] at hline
        simp only [write, htarget, hfull, hline, aimed]
      · refine ⟨.error (.io (.counted op) f), _, d₂, fs', ?_, h₂,
          .failed n highest op f fs' ha hroom hop hfs hno⟩
        rw [aimed] at hline
        simp only [write, htarget, hfull, hline, Spool.failed, aimed]
  | exhausted d₁ h₁ hmax =>
    refine ⟨.error .stampsExhausted, s, d₁, fs, ?_, h₁, .exhausted hmax⟩
    simp only [write, htarget]
  | untold name f d₁ h₁ hcurrent hno =>
    refine ⟨_, _, d₁, fs, ?_, h₁, .untold name f hcurrent hno⟩
    simp only [write, htarget, Spool.failed]

/-- The errors that a write may count. -/
def writeErrors : List FailurePoint :=
  [.writeStat, .writeFull, .writeOpen, .writeIo, .writeSync, .writeClose]

namespace Wrote

variable {line : Octets} {r : Except Fault Unit} {s' : Spool} {fs' : Named Octets}

theorem errors (h : Wrote p host s d fs line r s' fs') :
    ∃ new, s'.counters.errors = new ++ s.counters.errors ∧ new ⊆ writeErrors := by
  cases h with
  | exhausted => exact ⟨[], rfl, List.nil_subset _⟩
  | untold => exact ⟨[.writeStat], rfl, by decide⟩
  | full => exact ⟨[.writeFull], rfl, by decide⟩
  | failed n highest op _ _ _ _ hop =>
    have hsub : [.writeOpen, .writeIo, .writeSync, .writeClose] ⊆ writeErrors := by decide
    refine ⟨[op], rfl, ?_⟩
    rw [List.cons_subset]
    exact ⟨hsub hop, List.nil_subset _⟩
  | done => exact ⟨[], rfl, List.nil_subset _⟩

/-- A write that is acknowledged has put its whole line behind the current file. -/
theorem appended (h : Wrote p host s d fs line (.ok ()) s' fs') :
    ∃ n, s'.current = some (fileName eventStem n) ∧
      fs' = Named.insert (fileName eventStem n)
        ((Named.get? fs (fileName eventStem n)).getD [] ++ line) fs := by
  cases h with
  | done n => exact ⟨n, rfl, rfl⟩

/-- Either no file was chosen and nothing is written, or one was and nothing or the line is put behind
it. If a part of the line is there, that has been counted. -/
theorem aims_or_still (h : Wrote p host s d fs line r s' fs') :
    (s'.current = s.current ∧ s'.highestStamp = s.highestStamp ∧ fs' = fs) ∨
    ∃ n, s'.current = some (fileName eventStem n) ∧ Aims host s fs n s'.highestStamp ∧
      (fs' = fs ∨ fs' = Named.insert (fileName eventStem n)
          ((Named.get? fs (fileName eventStem n)).getD [] ++ line) fs ∨
        .writeIo ∈ s'.counters.errors ∧ ∃ taken, fs' = Named.insert (fileName eventStem n)
          ((Named.get? fs (fileName eventStem n)).getD [] ++ line.take taken) fs) := by
  cases h with
  | exhausted => exact .inl ⟨rfl, rfl, rfl⟩
  | untold => exact .inl ⟨rfl, rfl, rfl⟩
  | full n highest limit ha => exact .inr ⟨n, rfl, ha, .inl rfl⟩
  | failed n highest op _ _ ha _ _ hfs =>
    refine .inr ⟨n, rfl, ha, ?_⟩
    rcases hfs with hsame | ⟨-, hline⟩ | ⟨rfl, hpart⟩
    · exact .inl hsame
    · exact .inr (.inl hline)
    · exact .inr (.inr ⟨List.mem_cons_self, hpart⟩)
  | done n highest ha => exact .inr ⟨n, rfl, ha, .inr (.inl rfl)⟩

end Wrote

/-! ## Gauges, and opening -/

/-- The octets are counted again, and rightly if the sizes are told. -/
theorem refreshGauges_housed (s : Spool) (h : d.Houses p host fs ls) :
    (∃ total d', s.refreshGauges d = (.ok (), { s with
        total
        counters := (s.counters.setSize total).setFiles fs.length }, d') ∧
      d'.Houses p host fs ls ∧ (d.tellsAll = true → total = octetsIn fs)) ∨
    (∃ f d', s.refreshGauges d = (.error f, s, d') ∧ d'.Houses p host fs ls ∧
      ¬ host.IsWilling) := by
  rcases h.listFiles with ⟨d₁, hlist, h₁⟩ | ⟨f, d₁, hlist, h₁, hno⟩
  · have h₂ := h₁.sumSizes (fs.map Prod.fst)
    have htold := fun ht : d.tellsAll = true => h₁.sumSizes_listed ht hlist
    rcases hsum : sumSizes d₁ (fs.map Prod.fst) with ⟨total, d₂⟩
    rw [hsum] at h₂ htold
    refine .inl ⟨total, d₂, ?_, h₂, htold⟩
    simp only [refreshGauges, hlist, hsum, List.length_map]
  · refine .inr ⟨f, d₁, ?_, h₁, hno⟩
    simp only [refreshGauges, hlist]

/-- A spool that has just been opened, with fresh counters. -/
structure IsFresh (s : Spool) (fs : Named Octets) : Prop where
  current : s.current = none
  errors : s.counters.errors = []
  stamps : ∀ f ∈ fs, ∀ n, stamp? f.1 = some n → n ≤ s.highestStamp
  fileLimit : 0 < s.fileLimit
  totalLimit : s.totalLimit ≠ some 0

theorem le_foldl_max {n m : Nat} {ns : List Nat} (h : n ∈ ns ∨ n ≤ m) : n ≤ ns.foldl max m := by
  induction ns generalizing m with
  | nil =>
    rcases h with h | h
    · cases h
    · exact h
  | cons k ns ih =>
    refine ih ?_
    rcases h with h | h
    · rcases List.mem_cons.mp h with rfl | h
      · exact .inr (Nat.le_max_right _ _)
      · exact .inl h
    · exact .inr (h.trans (Nat.le_max_left _ _))

/-- Opening a spool in a directory that was there or has just been made changes no file. What is there
is counted, and rightly if the sizes are told. -/
theorem create_made (params : SpoolParameters) (registry : Registry)
    (h : (d.makeDirectory (params.directory.getD "")).2.Houses p host fs ls) :
    ((create params registry d).2.2.Houses p host fs ls ∨
      (create params registry d).2.2 = d ∧ ∀ s, (create params registry d).1 ≠ .ok s) ∧
    ∀ s, (create params registry d).1 = .ok s → s.IsFresh fs ∧
      ((d.makeDirectory (params.directory.getD "")).2.tellsAll = true → s.total = octetsIn fs) := by
  unfold create
  simp only
  split
  · exact ⟨.inr ⟨rfl, nofun⟩, nofun⟩
  · split
    · exact ⟨.inr ⟨rfl, nofun⟩, nofun⟩
    · rename_i hlimit
      rcases hmake : d.makeDirectory (params.directory.getD "") with ⟨f | u, d₁⟩
      · rw [hmake] at h
        exact ⟨.inl h, nofun⟩
      · rw [hmake] at h
        simp only
        rcases hregister : StoreCounters.register registry sizeDescription true with
          ⟨f | counters, registry'⟩
        · exact ⟨.inl h, nofun⟩
        · have herrors : counters.errors = [] := by
            rw [StoreCounters.register] at hregister
            split at hregister
            · rw [← Except.ok.inj (Prod.mk.inj hregister).1]
              rfl
            · cases hregister
          rcases h.listFiles with ⟨d₂, hlist, h₂⟩ | ⟨f, d₂, hlist, h₂, -⟩
          · have h₃ := h₂.sumSizes (fs.map Prod.fst)
            have htold := fun ht : d₁.tellsAll = true => h₂.sumSizes_listed ht hlist
            rcases hsum : sumSizes d₂ (fs.map Prod.fst) with ⟨total, d₃⟩
            rw [hsum] at h₃ htold
            simp only [hlist, hsum]
            refine ⟨.inl h₃, fun s hs => ?_⟩
            rw [← Except.ok.inj hs]
            refine ⟨⟨rfl, herrors, fun f hf n hn => ?_, Nat.pos_of_ne_zero hlimit, fun hzero => ?_⟩,
              htold⟩
            · exact le_foldl_max (.inl (List.mem_filterMap.mpr ⟨f.1, List.mem_map_of_mem hf, hn⟩))
            · -- a limit of zero counts as none
              exact absurd (Option.filter_eq_some_iff.mp hzero).2 (by decide)
          · simp only [hlist]
            exact ⟨.inl h₂, nofun⟩

/-- Making the directory that the disk is in changes nothing. -/
theorem makeDirectory_counted (h : d.Houses p host fs ls) {path : String}
    (hr : Disk.reach d.host.pathLimit d.root path = d.directory) :
    (d.makeDirectory path).2 = { d with calls := d.calls + 1 } := by
  obtain ⟨es, hes, -⟩ := h
  have hdirectory : d.directory = .ok p.reached := hes.shows.directory
  cases hrefuse : d.host.refuse d.calls with
  | none => rw [Disk.makeDirectory_of_reached hdirectory (hr.trans hdirectory) hrefuse]
  | some refusal => rw [Disk.makeDirectory, Disk.perform, Disk.call, hrefuse]

/-- Opening a spool in the directory that the disk is in changes no file. -/
theorem create_housed (h : d.Houses p host fs ls) (params : SpoolParameters) (registry : Registry)
    (hr : Disk.reach d.host.pathLimit d.root (params.directory.getD "") = d.directory) :
    (create params registry d).2.2.Houses p host fs ls ∧
    ∀ s, (create params registry d).1 = .ok s → s.IsFresh fs ∧
      ((d.makeDirectory (params.directory.getD "")).2.tellsAll = true → s.total = octetsIn fs) := by
  have hmade : (d.makeDirectory (params.directory.getD "")).2.Houses p host fs ls := by
    rw [makeDirectory_counted h hr]
    exact h.counted (d.calls + 1) d.readings
  obtain ⟨hhouses, hfresh⟩ := create_made params registry hmade
  refine ⟨?_, hfresh⟩
  rcases hhouses with hhouses | ⟨hsame, -⟩
  · exact hhouses
  · rw [hsame]
    exact h

end Spool

end AuditRelay
