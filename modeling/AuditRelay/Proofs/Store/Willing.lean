import AuditRelay.Proofs.Store.Attempts

/-!
# AuditRelay.Proofs.Store.Willing — operations of a spool on a host that refuses no call

`Disk.Stores` says that a directory houses event files whose names are not too long, on a host that
refuses no call. What an operation may come to is stated in `Attempts`; of that a willing host excludes
most. A write that fails changes no file, a batch that is out can be removed, and reading removes files
without events until one holds some (`Read`).

The octets that a spool counts along stay those of its event files throughout.
-/

namespace AuditRelay

open Spool (lineFeed octetsIn)

/-- The directory has these event files, and nothing keeps a spool from its files. -/
structure Disk.Stores (p : Place) (d : Disk) (fs : Named Octets) : Prop where
  houses : d.Houses p d.host fs d.letters
  willing : d.host.IsWilling
  fits : ∀ f ∈ fs, p.Fits f.1

/-- What is housed on a willing host is stored. -/
theorem Disk.Houses.stores {p : Place} {host : Host} {d : Disk} {fs : Named Octets}
    {ls : Nat → Octets} (h : d.Houses p host fs ls) (hw : host.IsWilling)
    (hfits : ∀ f ∈ fs, p.Fits f.1) : d.Stores p fs := by
  have hhost := h.host_eq
  subst hhost
  refine ⟨?_, hw, hfits⟩
  rw [h.letters_eq]
  exact h

theorem Disk.Shows.stores {p : Place} {d : Disk} (h : d.Shows p p.found)
    (hfits : ∀ f ∈ Spool.files p.found, p.Fits f.1) : d.Stores p (Spool.files p.found) :=
  Disk.Houses.stores ⟨p.found, h.lays, .refl _, rfl, rfl⟩ h.willing hfits

namespace Spool

/-- What reading comes to if no call fails: files without events are passed over and removed. -/
inductive Read (s : Spool) (fs : Named Octets) :
    Except Fault (Option Batch) → Spool → Named Octets → Prop where
  | nothing (s' : Spool) (hheld : held fs = []) (hs : Follows s s')
      (ht : s.total = octetsIn fs → s'.total = 0) : Read s fs (.ok none) s' []
  | batch (name : String) (c c' : Octets) (passed rest : Named Octets) (s' : Spool)
      (hfs : fs = passed ++ (name, c) :: rest) (hpassed : held passed = [])
      (hc : eventsIn c ≠ []) (hc' : IsLeftOf c c') (hs : Follows s s')
      (hcur : s'.current ≠ some name)
      (ht : s.total = octetsIn fs → s'.total = octetsIn ((name, c') :: rest)) :
      Read s fs (.ok (some ⟨eventsIn c, .file name⟩)) s' ((name, c') :: rest)
  /-- There is no stamp left for the dead letters of a file. -/
  | exhausted (passed rest : Named Octets) (s' : Spool) (hfs : fs = passed ++ rest)
      (hpassed : held passed = []) (hs : Follows s s') (hmax : maxStamp ≤ s'.highestStamp)
      (ht : s.total = octetsIn fs → s'.total = octetsIn rest) :
      Read s fs (.error .stampsExhausted) s' rest

variable {p : Place} {host : Host} {s s₁ s' : Spool} {d : Disk} {fs fs' : Named Octets}
  {ls ls' : Nat → Octets} {name : String} {c : Octets}

/-- A file without events is passed over. -/
theorem Read.pass {r : Except Fault (Option Batch)} (h : Read s₁ fs r s' fs')
    (hc : eventsIn c = []) (hs : Follows s s₁)
    (ht : s.total = octetsIn ((name, c) :: fs) → s₁.total = octetsIn fs) :
    Read s ((name, c) :: fs) r s' fs' := by
  cases h with
  | nothing _ hheld hs' ht' =>
    refine .nothing s' ?_ (hs.trans hs') fun h => ht' (ht h)
    rw [held_cons, hc, hheld, List.append_nil]
  | batch name' c' c'' passed rest _ hfs hpassed hne hc' hs' hcur ht' =>
    refine .batch name' c' c'' ((name, c) :: passed) rest s' ?_ ?_ hne hc' (hs.trans hs') hcur
      fun h => ht' (ht h)
    · rw [hfs, List.cons_append]
    · rw [held_cons, hc, hpassed, List.append_nil]
  | exhausted passed rest _ hfs hpassed hs' hmax ht' =>
    refine .exhausted ((name, c) :: passed) _ s' ?_ ?_ (hs.trans hs') hmax fun h => ht' (ht h)
    · rw [hfs, List.cons_append]
    · rw [held_cons, hc, hpassed, List.append_nil]

/-- On a willing host nothing keeps a file from being read or removed. -/
theorem BatchRead.read {r : Except Fault (Option Batch)} (h : BatchRead p host s fs ls r s' fs' ls')
    (hw : host.IsWilling) (hfits : ∀ f ∈ fs, p.Fits f.1) (ho : Named.IsOrdered fs) :
    Read s fs r s' fs' := by
  -- along the files that are passed over
  induction h with
  | nothing s ls => exact .nothing s rfl (.refl s) id
  | failed s name c rest ls f s' fs' ls' hr =>
    have hfollows := (released_follows s name).trans hr.follows.1
    have htotal := hr.total_first ho
    cases hr with
    | unread op f hop hno => exact absurd ⟨hw, hfits _ List.mem_cons_self⟩ hno
    | exhausted hd hmax => exact .exhausted [] _ _ rfl rfl hfollows hmax htotal
  | batch s name c rest ls s' fs' ls' hne hr =>
    have htotal := hr.total_first ho
    have hcur : s'.current ≠ some name := hr.follows.2 ▸ current_released s name
    obtain ⟨c', hc', rfl⟩ := hr.first
    exact .batch name c c' [] rest _ rfl rfl hne hc'
      (((released_follows s name).trans hr.follows.1).trans (follows_with s' 0 (List.Subset.refl _)))
      hcur htotal
  | unremoved s name c rest ls f s' fs' ls' he hr hno =>
    exact absurd ⟨hw, hfits _ List.mem_cons_self⟩ hno
  | pass s name c c' rest ls s₁ ls₁ size he hr hsize hrest ih =>
    have htotal := hr.total_first ho
    have hpassed : Follows s { s₁ with total := s₁.total - size } :=
      ((released_follows s name).trans hr.follows.1).trans
        (follows_with s₁ size (List.Subset.refl _))
    refine (ih (fun f hf => hfits f (List.mem_cons_of_mem _ hf)) (List.pairwise_cons.mp ho).2).pass
      he hpassed fun ht => ?_
    have hsum := htotal ht
    rw [octetsIn_cons] at hsum
    show s₁.total - size = _
    rw [hsize hw (hfits _ List.mem_cons_self), hsum, Nat.add_sub_cancel_left]

end Spool

/-! ## Operations -/

namespace Disk.Stores

variable {p : Place} {d : Disk} {fs : Named Octets} {name : String} {c : Octets}

theorem ordered (h : d.Stores p fs) : Named.IsOrdered fs := h.houses.ordered

/-- A write puts nothing into a file with too long a name, and if it fails nothing into any file. -/
theorem write (h : d.Stores p fs) (hp : p.IsUnlinked) {s : Spool}
    (hc : ∀ name, s.current = some name → ∃ n, name = Spool.fileName Spool.eventStem n)
    (e : Event) :
    ∃ r s' d' fs', s.write d e = (r, s', d') ∧ d'.Stores p fs' ∧ d'.letters = d.letters ∧
      Spool.Wrote p d.host s d fs (e.written ++ [lineFeed]) r s' fs' := by
  obtain ⟨r, s', d', fs', hrun, h', hw⟩ := Spool.write_housed s h.houses hp hc e
  refine ⟨r, s', d', fs', hrun, h'.stores h.willing ?_, h'.letters_eq, hw⟩
  cases hw with
  | exhausted | untold | full => exact h.fits
  | failed n highest op f _ _ _ _ _ hno =>
    rw [(hno h.willing).1]
    exact h.fits
  | done n highest _ _ _ hfit =>
    intro f hf
    rcases Named.mem_insert hf with rfl | hf
    · exact hfit
    · exact h.fits f hf

theorem nextBatch (h : d.Stores p fs) (hp : p.IsUnlinked) (s : Spool) :
    ∃ r s' d' fs', s.nextBatch d = (r, s', d') ∧ d'.Stores p fs' ∧
      Spool.BatchRead p d.host s fs d.letters r s' fs' d'.letters ∧ Spool.Read s fs r s' fs' := by
  obtain ⟨r, s', d', fs', ls', hrun, h', hread⟩ := Spool.nextBatch_housed s h.houses hp
  rcases hread with ⟨-, -, -, -, -, hno⟩ | hread
  · exact absurd h.willing hno
  · have hr := hread.read h.willing h.fits h.ordered
    rw [← h'.letters_eq] at hread
    refine ⟨r, s', d', fs', hrun, h'.stores h.willing ?_, hread, hr⟩
    -- the names of the files that are left are among those of all
    intro f hf
    cases hr with
    | nothing => cases hf
    | batch name c c' passed rest _ hfs =>
      rw [hfs] at h
      rcases List.mem_cons.mp hf with rfl | hf
      · exact h.fits (name, c) (List.mem_append_right _ List.mem_cons_self)
      · exact h.fits f (List.mem_append_right _ (List.mem_cons_of_mem _ hf))
    | exhausted passed rest _ hfs =>
      rw [hfs] at h
      exact h.fits f (List.mem_append_right _ hf)

theorem removeFile (h : d.Stores p fs) (s : Spool) (hg : Named.get? fs name = some c) :
    ∃ d', s.removeFile d name = (.ok (), { s with total := s.total - c.length }, d') ∧
      d'.Stores p (Named.erase name fs) ∧ d'.letters = d.letters := by
  have hmem := Named.mem_of_get? hg
  have hn := h.houses.isEventFile_of_mem hmem
  have hfit := h.fits _ hmem
  rcases Spool.removeFile_housed s h.houses hn with
    ⟨size, d', hrun, h', htold⟩ | ⟨f, d', hrun, h', hno⟩
  · have hsize := htold (.inr ⟨c, hg⟩)
      (h.houses.tellsSize_of_willing hn (.inr ⟨c, hg⟩) h.willing hfit)
    rw [hg, Option.getD_some] at hsize
    rw [hsize] at hrun
    exact ⟨d', hrun, h'.stores h.willing fun f hf => h.fits f (List.mem_of_mem_filter hf),
      h'.letters_eq⟩
  · exact absurd ⟨h.willing, hfit, c, hg⟩ hno

theorem refreshGauges (h : d.Stores p fs) (s : Spool) :
    ∃ d', s.refreshGauges d = (.ok (), { s with
        total := octetsIn fs
        counters := (s.counters.setSize (octetsIn fs)).setFiles fs.length }, d') ∧
      d'.Stores p fs ∧ d'.letters = d.letters := by
  rcases Spool.refreshGauges_housed s h.houses with
    ⟨total, d', hrun, h', htold⟩ | ⟨f, d', hrun, h', hno⟩
  · rw [htold (h.houses.tellsAll_of_willing h.willing h.fits)] at hrun
    exact ⟨d', hrun, h'.stores h.willing h.fits, h'.letters_eq⟩
  · exact absurd h.willing hno

/-- Opening a spool in the directory that the disk is in changes no file. -/
theorem create (h : d.Stores p fs) (params : SpoolParameters) (registry : Registry)
    (hr : Disk.reach d.host.pathLimit d.root (params.directory.getD "") = d.directory) :
    (Spool.create params registry d).2.2.Stores p fs ∧
    (Spool.create params registry d).2.2.letters = d.letters ∧
    ∀ s, (Spool.create params registry d).1 = .ok s → s.IsFresh fs := by
  obtain ⟨h', hfresh⟩ := Spool.create_housed h.houses params registry hr
  exact ⟨h'.stores h.willing h.fits, h'.letters_eq, fun s hs => (hfresh s hs).1⟩

end Disk.Stores

end AuditRelay
