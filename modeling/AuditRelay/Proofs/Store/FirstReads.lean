import AuditRelay.Proofs.Store.Spared

/-!
# AuditRelay.Proofs.Store.FirstReads — what reading a file for the first time does

A read goes through the oldest files up to the first that has events (`consulted`). The first time
that it comes to a file it sets the damaged lines of the file aside, in one file of dead letters; when
it comes to the file again there are none left.

A `Chronicle` is what one writes down who watches from outside: which file was read for the first time,
in what order, and what it held then. `Chronicle.Accounts` says that the dead letters, the event files
and the counters are those that the chronicle tells of. Reading a batch keeps it, if dead letters and
what is left of files could be written (`Spool.HasSetAside`); where nothing is refused they could
(`BatchRead.succeeds`).
-/

namespace AuditRelay

namespace Spool

/-! ## Files by their lines -/

/-- The lines of a file that are neither blank nor events. -/
def damagedLines (c : Octets) : List Octets := (lines c).filter isDamagedLine

/-- The lines of a file that are events. -/
def eventLines (c : Octets) : List Octets := (lines c).filter isEventLine

/-- The events of a file, as its lines tell them. -/
def eventsOf (c : Octets) : List Event :=
  (eventLines c).filterMap fun line => (Event.read line).toOption

/-- What is left of a file that has been read: the lines of its events, each with a line feed, or,
if no line is damaged, all of it. -/
def leftBy (c : Octets) : Octets :=
  if damagedLines c = [] then c else joined (eventLines c)

/-- The files that a read goes through, from the oldest to the first that has events. -/
def consulted : Named Octets → Named Octets
  | [] => []
  | f :: rest => if eventLines f.2 = [] then f :: consulted rest else [f]

/-- The events of the oldest file that has any. -/
def firstBatch : Named Octets → Option Batch
  | [] => none
  | f :: rest => if eventLines f.2 = [] then firstBatch rest else some ⟨eventsOf f.2, .file f.1⟩

theorem damagedLines_eq (c : Octets) : (damagedIn c).map Damaged.line = damagedLines c :=
  map_line_damaged (lines c)

theorem length_damagedIn (c : Octets) : (damagedIn c).length = (damagedLines c).length := by
  rw [← damagedLines_eq, List.length_map]

theorem damagedLines_eq_nil_iff (c : Octets) : damagedLines c = [] ↔ damagedIn c = [] := by
  rw [← damagedLines_eq, List.map_eq_nil_iff]

theorem eventsIn_eq (c : Octets) : eventsIn c = eventsOf c := events_eq_filterMap (lines c)

theorem eventsIn_eq_nil_iff (c : Octets) : eventsIn c = [] ↔ eventLines c = [] := by
  rw [eventsIn_eq]
  constructor
  · intro h
    cases hl : eventLines c with
    | nil => rfl
    | cons line rest =>
      -- the first of these lines is an event
      have hline : isEventLine line = true := by
        have hmem : line ∈ eventLines c := by
          rw [hl]
          exact List.mem_cons_self
        exact (List.mem_filter.mp hmem).2
      rw [eventsOf, hl, List.filterMap_cons] at h
      cases hr : Event.read line with
      | error f =>
        rw [isEventLine_error hr] at hline
        cases hline
      | ok e =>
        rw [hr] at h
        cases h
  · intro h
    rw [eventsOf, h]
    rfl

theorem leftBy_of_clean {c : Octets} (h : damagedIn c = []) : leftBy c = c := by
  rw [leftBy, if_pos ((damagedLines_eq_nil_iff c).mpr h)]

theorem leftBy_of_damaged {c : Octets} (h : damagedIn c ≠ []) : leftBy c = keptOf c := by
  rw [leftBy, if_neg (mt (damagedLines_eq_nil_iff c).mp h), keptOf, kept_eq_joined, eventLines]

/-- No line is damaged in what is left. -/
theorem damagedIn_leftBy (c : Octets) : damagedIn (leftBy c) = [] := by
  by_cases h : damagedIn c = []
  · rw [leftBy_of_clean h, h]
  · rw [leftBy_of_damaged h, damagedIn, keptOf, damaged_kept]

/-! ## Dead letters of first reads -/

/-- One dead letter for each damaged line of the file, in order, with its text and the file's name. -/
def LettersOf (f : String × Octets) (letters : List DeadLetter) : Prop :=
  List.Forall₂ (fun line l => l.rawData = Text.lossy line ∧ l.sourceFile = f.1)
    (damagedLines f.2) letters

theorem AreLettersOf.lettersOf {name : String} {c : Octets} {letters : List DeadLetter}
    (h : AreLettersOf name (damagedIn c) letters) : LettersOf (name, c) letters := by
  rw [LettersOf, ← damagedLines_eq, List.forall₂_map_left_iff]
  refine List.Forall₂.imp ?_ h
  rintro x l ⟨timestamp, rfl⟩
  exact ⟨rfl, rfl⟩

theorem lettersOf_clean (name : String) {c : Octets} (h : damagedIn c = []) :
    LettersOf (name, c) [] := by
  rw [LettersOf, (damagedLines_eq_nil_iff c).mpr h]
  exact .nil

/-- The dead letters are those of these reads and no others: each read has put its letters into one
file, behind those of the reads before it. -/
def IsSetAside (reads : Named Octets) (ls : Nat → Octets) : Prop :=
  ∃ sets : List (Nat × List DeadLetter),
    List.Forall₂ (fun f letters => LettersOf f letters.2) reads sets ∧
    ∀ n, ls n = (sets.filter (·.1 = n)).flatMap fun letters =>
      letters.2.flatMap DeadLetter.written

theorem isSetAside_nil {ls : Nat → Octets} (h : ∀ n, ls n = []) : IsSetAside [] ls :=
  ⟨[], .nil, h⟩

theorem IsSetAside.append {reads : Named Octets} {ls : Nat → Octets} (h : IsSetAside reads ls)
    {f : String × Octets} {letters : List DeadLetter} (hl : LettersOf f letters) (n : Nat) :
    IsSetAside (reads ++ [f]) (Function.update ls n (ls n ++ letters.flatMap DeadLetter.written)) := by
  obtain ⟨sets, hsets, htext⟩ := h
  refine ⟨sets ++ [(n, letters)], List.rel_append hsets (.cons hl .nil), fun m => ?_⟩
  by_cases hm : m = n
  · subst hm
    simp [htext]
  · rw [Function.update_of_ne hm, htext]
    simp [Ne.symm hm]

/-! ## What a spool has counted -/

variable {s s' : Spool}

/-- The spool has come upon so many damaged lines, and has written as many dead letters. -/
def HasCounted (s : Spool) (n : Nat) : Prop :=
  s.counters.errors.count .corruptedEvent = n ∧ s.counters.errors.count .deadLetterWrite = n

/-- All that the spool was to set aside has been: it has counted no dead letters that could not be
written and no file that could not be replaced. -/
def HasSetAside (s : Spool) : Prop :=
  .deadLetterWriteFailed ∉ s.counters.errors ∧ .deadLetterReplace ∉ s.counters.errors

theorem HasSetAside.of_subset (h : s'.HasSetAside)
    (hsub : s.counters.errors ⊆ s'.counters.errors) : s.HasSetAside :=
  ⟨fun hmem => h.1 (hsub hmem), fun hmem => h.2 (hsub hmem)⟩

/-- The failures that have to do with damaged lines. -/
def asideErrors : List FailurePoint :=
  [.corruptedEvent, .deadLetterWrite, .deadLetterWriteFailed, .deadLetterReplace]

/-- No more of these have been counted. -/
def CountsAlike (s s' : Spool) : Prop :=
  ∀ op ∈ asideErrors, s'.counters.errors.count op = s.counters.errors.count op

theorem countsAlike_of_eq (h : s'.counters.errors = s.counters.errors) : CountsAlike s s' :=
  fun op _ => congrArg (List.count op) h

theorem countsAlike_of_append {new : List FailurePoint}
    (h : s'.counters.errors = new ++ s.counters.errors) (hnew : ∀ op ∈ asideErrors, op ∉ new) :
    CountsAlike s s' := by
  intro op hop
  rw [h, List.count_append, List.count_eq_zero.mpr (hnew op hop), Nat.zero_add]

theorem CountsAlike.hasCounted (h : CountsAlike s s') {n : Nat} (hs : s.HasCounted n) :
    s'.HasCounted n := by
  rw [HasCounted, h _ (by decide), h _ (by decide)]
  exact hs

theorem CountsAlike.hasSetAside (h : CountsAlike s s') (hs : s.HasSetAside) : s'.HasSetAside := by
  rw [HasSetAside, ← List.count_eq_zero, ← List.count_eq_zero, h _ (by decide), h _ (by decide),
    List.count_eq_zero, List.count_eq_zero]
  exact hs

end Spool

/-! ## Chronicles -/

/-- What was read for the first time, by spools that were open earlier and by the one that is open; and
which of it is still there, with its contents at that time. -/
structure Chronicle where
  earlier : Named Octets
  here : Named Octets
  seen : String → Option Octets

namespace Chronicle

/-- Nothing has been read yet. -/
def blank : Chronicle := ⟨[], [], fun _ => none⟩

/-- All first reads, in order. -/
def reads (g : Chronicle) : Named Octets := g.earlier ++ g.here

/-- A file is read, perhaps again. -/
def note (g : Chronicle) (f : String × Octets) : Chronicle :=
  if (g.seen f.1).isSome then g
  else ⟨g.earlier, g.here ++ [f], Function.update g.seen f.1 (some f.2)⟩

/-- Another spool is opened. -/
def turned (g : Chronicle) : Chronicle := ⟨g.reads, [], g.seen⟩

/-- Only these files are left; another one may get the name of one that is gone. -/
def among (g : Chronicle) (fs : Named Octets) : Chronicle :=
  { g with seen := fun name => if (Named.get? fs name).isSome then g.seen name else none }

/-- How many damaged lines the open spool has come upon. -/
def tally (g : Chronicle) : Nat := (g.here.flatMap fun f => Spool.damagedLines f.2).length

theorem note_of_seen {g : Chronicle} {name : String} {c : Octets} (h : g.seen name = some c)
    (c' : Octets) : g.note (name, c') = g := by
  rw [note, if_pos (by simp [h])]

theorem note_of_new {g : Chronicle} {name : String} (h : g.seen name = none) (c : Octets) :
    g.note (name, c) =
      ⟨g.earlier, g.here ++ [(name, c)], Function.update g.seen name (some c)⟩ := by
  rw [note, if_neg (by simp [h])]

theorem among_seen {g : Chronicle} {fs : Named Octets} {name : String} {c : Octets}
    (h : (g.among fs).seen name = some c) :
    g.seen name = some c ∧ ∃ c', Named.get? fs name = some c' := by
  have hseen : (if (Named.get? fs name).isSome then g.seen name else none) = some c := h
  split at hseen
  · rename_i hthere
    exact ⟨hseen, Option.isSome_iff_exists.mp hthere⟩
  · contradiction

theorem among_seen_eq_none {g : Chronicle} {name : String} (h : g.seen name = none)
    (fs : Named Octets) : (g.among fs).seen name = none := by
  simp only [among, h, ite_self]

open Spool (IsSetAside leftBy damagedIn damagedLines eventLines keptOf eventsIn consulted firstBatch
  FileRead BatchRead stampLimit tempName lettersOf_clean leftBy_of_clean leftBy_of_damaged)

/-- The dead letters, the event files and the open spool are as the chronicle tells. -/
structure Accounts (g : Chronicle) (s : Spool) (fs : Named Octets) (ls : Nat → Octets) : Prop where
  letters : IsSetAside g.reads ls
  seen : ∀ name c c', g.seen name = some c → Named.get? fs name = some c' → c' = leftBy c
  tally : s.HasCounted g.tally
  /-- No event is put behind what has been read. -/
  current : ∀ name, s.current = some name → g.seen name = none

variable {p : Place} {host : Host} {g : Chronicle} {s s' : Spool} {fs fs' : Named Octets}
  {ls ls' : Nat → Octets} {name : String} {c : Octets}

/-- The file has been read for the first time. -/
theorem Accounts.noted (h : g.Accounts s fs ls) (hnew : g.seen name = none)
    (hletters : IsSetAside (g.reads ++ [(name, c)]) ls')
    (hleft : ∀ c', Named.get? fs' name = some c' → c' = leftBy c)
    (hothers : ∀ k, k ≠ name → Named.get? fs' k = Named.get? fs k)
    (htally : ∀ n, s.HasCounted n → s'.HasCounted (n + (damagedLines c).length))
    (hcurrent : s'.current = s.current ∨ s'.current = none) (hne : s'.current ≠ some name) :
    (g.note (name, c)).Accounts s' fs' ls' := by
  have hnote := note_of_new hnew c
  have hseen : (g.note (name, c)).seen = Function.update g.seen name (some c) := by rw [hnote]
  constructor
  · rw [hnote, reads, ← List.append_assoc]
    exact hletters
  · intro k c₀ c' hk hthere
    rw [hseen] at hk
    by_cases hkn : k = name
    · subst hkn
      rw [Function.update_self, Option.some.injEq] at hk
      rw [← hk]
      exact hleft c' hthere
    · rw [Function.update_of_ne hkn] at hk
      rw [hothers k hkn] at hthere
      exact h.seen k c₀ c' hk hthere
  · have hsum : (g.note (name, c)).tally = g.tally + (damagedLines c).length := by
      rw [hnote, Chronicle.tally, Chronicle.tally, List.flatMap_append, List.length_append,
        List.flatMap_singleton]
    rw [hsum]
    exact htally _ h.tally
  · intro k hk
    have hkn : k ≠ name := by
      rintro rfl
      exact hne hk
    rw [hseen, Function.update_of_ne hkn]
    rcases hcurrent with hcur | hcur
    · exact h.current k (hcur ▸ hk)
    · rw [hcur] at hk
      contradiction

end Chronicle

namespace Spool

variable {p : Place} {host : Host} {g : Chronicle} {s s' : Spool} {fs fs' : Named Octets}
  {ls ls' : Nat → Octets} {name : String} {c : Octets}

/-- A file that has been read: it is noted, and the chronicle still accounts for everything. -/
theorem FileRead.accounts {r : Except Fault (List Event)}
    (h : FileRead p host (s.released name) fs ls name c r s' fs' ls') (hg : Named.get? fs name = some c)
    (hr : ∀ f, r ≠ .error f) (hok : s'.HasSetAside) (ha : g.Accounts s fs ls) :
    (g.note (name, c)).Accounts s' fs' ls' := by
  obtain ⟨hne, -, -, -⟩ := h.leaves hg
  have hfollows := (released_follows s name).trans h.follows.1
  have hothers : ∀ k, k ≠ name → Named.get? fs' k = Named.get? fs k := fun k hk => h.get?_of_ne hk
  have hcounters := counters_released s name
  have halike : CountsAlike s (s.released name) := countsAlike_of_eq (by rw [hcounters])
  cases hseen : g.seen name with
  | some c₀ =>
    -- no line of what is left is damaged
    have hclean : damagedIn c = [] := by
      rw [ha.seen name c₀ c hseen hg]
      exact damagedIn_leftBy c₀
    cases h with
    | unread => exact absurd rfl (hr _)
    | clean =>
      rw [Chronicle.note_of_seen hseen]
      refine ⟨ha.letters, ha.seen, halike.hasCounted ha.tally, fun k hk => ?_⟩
      rcases hfollows.current with hcur | hcur
      · exact ha.current k (hcur ▸ hk)
      · rw [hcur] at hk
        contradiction
    | exhausted hd | unset _ _ hd | unreplaced _ _ hd | replaced _ _ hd => exact absurd hclean hd
  | none =>
    cases h with
    | unread => exact absurd rfl (hr _)
    | clean hd =>
      -- a first read without letters, which is the same as none in the file with stamp 0
      have hletters := ha.letters.append (lettersOf_clean name hd) 0
      rw [List.flatMap_nil, List.append_nil, Function.update_eq_self] at hletters
      refine ha.noted hseen hletters (fun c' hc' => ?_) hothers (fun n hs => ?_) hfollows.current hne
      · rw [hg, Option.some.injEq] at hc'
        rw [← hc', leftBy_of_clean hd]
      · rw [← length_damagedIn, hd]
        exact halike.hasCounted hs
    | exhausted => exact absurd rfl (hr _)
    | unset => exact absurd List.mem_cons_self hok.1
    | unreplaced => exact absurd List.mem_cons_self hok.2
    | replaced n letters hd hn hletters =>
      refine ha.noted hseen (ha.letters.append hletters.lettersOf n) (fun c' hc' => ?_) hothers
        (fun m hs => ?_) hfollows.current hne
      · rw [Named.get?_insert_self, Option.some.injEq] at hc'
        rw [← hc', leftBy_of_damaged hd]
      · -- each damaged line has been counted twice, as found and as written
        obtain ⟨hfound, hwritten⟩ := halike.hasCounted hs
        simp [HasCounted, StoreCounters.countErrors, List.count_append, List.count_replicate,
          hfound, hwritten, hletters.length_eq, length_damagedIn, Nat.add_comm]

/-- A batch that has been read is the first one, and every file on the way has been noted. -/
theorem BatchRead.accounts {r : Except Fault (Option Batch)}
    (h : BatchRead p host s fs ls r s' fs' ls') (ho : Named.IsOrdered fs) (hr : ∀ f, r ≠ .error f)
    (hok : s'.HasSetAside) (ha : g.Accounts s fs ls) :
    r = .ok (firstBatch fs) ∧ ((consulted fs).foldl Chronicle.note g).Accounts s' fs' ls' := by
  -- along the files that are read, with the chronicle of those before
  induction h generalizing g with
  | nothing s ls => exact ⟨rfl, ha⟩
  | failed => exact absurd rfl (hr _)
  | batch s name c rest ls s' fs' ls' hne hread =>
    have hnoted := hread.accounts (Named.get?_first name c rest) nofun hok ha
    have hlines : eventLines c ≠ [] := mt (eventsIn_eq_nil_iff c).mpr hne
    rw [consulted, firstBatch, if_neg hlines, if_neg hlines, eventsIn_eq]
    exact ⟨rfl, hnoted.letters, hnoted.seen, hnoted.tally, hnoted.current⟩
  | unremoved => exact absurd rfl (hr _)
  | pass s name c c' rest ls s₁ ls₁ size he hread hsize hrest ih =>
    have ho' := (List.pairwise_cons.mp ho).2
    -- what is counted stays counted
    have hok₁ : s₁.HasSetAside := hok.of_subset hrest.follows.errors
    have hnoted := hread.accounts (Named.get?_first name c rest) nofun hok₁ ha
    have hlines : eventLines c = [] := (eventsIn_eq_nil_iff c).mp he
    rw [consulted, firstBatch, if_pos hlines, if_pos hlines, List.foldl_cons]
    refine ih ho' hr hok ⟨hnoted.letters, fun k c₀ c₁ hk hthere => ?_, hnoted.tally, hnoted.current⟩
    -- the removed file is none of the others
    have hkn : k ≠ name := by
      rintro rfl
      exact absurd ((List.pairwise_cons.mp ho).1 _ (Named.mem_of_get? hthere)) (lt_irrefl _)
    refine hnoted.seen k c₀ c₁ hk ?_
    rw [hread.get?_of_ne hkn, Named.get?_cons, if_neg hkn, hthere]

/-! ## Where nothing is refused -/

theorem FileRead.succeeds {r : Except Fault (List Event)}
    (h : FileRead p host (s.released name) fs ls name c r s' fs' ls') (hp : p.Serves host)
    (hfit : p.Fits name ∧ p.Fits (tempName name)) (hlimit : s'.highestStamp < stampLimit)
    (hs : s.HasSetAside) : (∀ f, r ≠ .error f) ∧ s'.HasSetAside := by
  have hcounters := counters_released s name
  cases h with
  | unread op f hop hno => exact absurd ⟨hp.willing, hfit.1⟩ hno
  | clean =>
    refine ⟨nofun, ?_⟩
    rw [HasSetAside, hcounters]
    exact hs
  | exhausted hd hmax => exact absurd hlimit (Nat.not_lt.mpr (stampLimit_le_maxStamp.trans hmax))
  | unset n ls' hd hn hls hno => exact absurd ⟨hp, hlimit⟩ hno
  | unreplaced n letters hd hn hletters hno => exact absurd ⟨hp, hfit⟩ hno
  | replaced =>
    refine ⟨nofun, ?_⟩
    -- only damaged lines and dead letters have been counted
    rw [HasSetAside] at hs ⊢
    simp [StoreCounters.countErrors, hcounters, hs.1, hs.2]

/-- A read is answered, and all that it was to set aside has been. -/
theorem BatchRead.succeeds {r : Except Fault (Option Batch)}
    (h : BatchRead p host s fs ls r s' fs' ls') (hp : p.Serves host) (ho : Named.IsOrdered fs)
    (hfits : ∀ f ∈ fs, p.Fits f.1 ∧ p.Fits (tempName f.1)) (hlimit : s'.highestStamp < stampLimit)
    (hs : s.HasSetAside) : (∀ f, r ≠ .error f) ∧ s'.HasSetAside := by
  induction h with
  | nothing => exact ⟨nofun, hs⟩
  | failed s name c rest ls f s' fs' ls' hr =>
    exact absurd rfl ((hr.succeeds hp (hfits _ List.mem_cons_self) hlimit hs).1 f)
  | batch s name c rest ls s' fs' ls' hne hr =>
    exact ⟨nofun,
      (hr.succeeds hp (hfits _ List.mem_cons_self) hlimit hs).2⟩
  | unremoved s name c rest ls f s' fs' ls' he hr hno =>
    exact absurd ⟨hp.willing, (hfits _ List.mem_cons_self).1⟩ hno
  | pass s name c c' rest ls s₁ ls₁ size he hr hsize hrest ih =>
    have ho' := (List.pairwise_cons.mp ho).2
    -- stamps only grow
    have hlimit₁ : s₁.highestStamp < stampLimit :=
      lt_of_le_of_lt hrest.follows.stamp hlimit
    obtain ⟨-, hs₁⟩ := hr.succeeds hp (hfits _ List.mem_cons_self) hlimit₁ hs
    exact ih ho' (fun f hf => hfits f (List.mem_cons_of_mem _ hf)) hlimit hs₁

end Spool

end AuditRelay
