import AuditRelay.Proofs.Store.Spared

/-!
# AuditRelay.Proofs.Store.Sizes — the total that a spool counts along

A spool keeps a total of the octets in its event files. Each operation adjusts it by what it believes
to have changed: a write adds its line, a file that is removed takes its size off, and a file whose
damaged lines are set aside is reckoned to have shrunk by the difference in length. Here it is shown
operation by operation that these adjustments come to what is in the directory (`Spool.Meters`), on a
host that may refuse any other call, as long as the size of a file is told when it is asked for
(`Disk.tellsSize`).

A line is put behind a file that was below its limit, if no event file has a stamp that is still to be
given (`Spool.IsAhead`).
-/

namespace AuditRelay

open Spool (fileName eventStem isEventFile lineFeed maxStamp octetsIn)

namespace Spool

variable {p : Place} {host : Host} {s s' : Spool} {d : Disk} {fs : Named Octets}
  {ls : Nat → Octets} {name : String} {c : Octets}

/-- The total is what is in the event files. -/
def Meters (s : Spool) (d : Disk) : Prop := s.total = octetsIn d.files

/-! ## Removing -/

/-- A file that is removed takes its size off the total. -/
theorem removeFile_meters (s : Spool) (h : d.Houses p host fs ls) (hn : isEventFile name = true)
    (hfile : p.IsRegular ∨ ∃ c, Named.get? fs name = some c) (ht : d.tellsSize name = true)
    (hm : s.Meters d) :
    (s.removeFile d name).2.1.Meters (s.removeFile d name).2.2 ∧
    Follows s (s.removeFile d name).2.1 := by
  rw [Meters, h.files_eq] at hm
  rcases removeFile_housed s h hn with ⟨size, d', hrun, h', htold⟩ | ⟨f, d', hrun, h', -⟩
  · have hsize := htold hfile ht
    have hsum := octetsIn_erase_add h.ordered name
    rw [hrun, Meters, h'.files_eq]
    refine ⟨?_, follows_with s size (List.Subset.refl _)⟩
    show s.total - size = _
    omega
  · rw [hrun, failed, Meters, h'.files_eq]
    exact ⟨hm, follows_with s 0 (List.subset_cons_self _ _)⟩

/-! ## Reading -/

/-- If these files are read, the sizes of those that are removed are told. -/
def tellsRemoved (s : Spool) (d : Disk) : List String → Bool
  | [] => true
  | name :: names =>
    match (s.released name).readFile d name with
    | (.ok [], s, d) =>
      d.tellsSize name &&
        match s.removeFile d name with
        | (.ok (), s, d) => s.tellsRemoved d names
        | (.error _, _, _) => true
    | _ => true

/-- If a batch is read now, the sizes of the files that are removed are told. -/
def tellsRead (s : Spool) (d : Disk) : Bool :=
  match listFiles d with
  | (.ok names, d) => s.tellsRemoved d names
  | (.error _, _) => true

theorem readFirst_meters (s : Spool) (h : d.Houses p host fs ls) (hp : p.IsUnlinked)
    (ht : s.tellsRemoved d (fs.map Prod.fst) = true) (hm : s.Meters d) :
    (s.readFirst d (fs.map Prod.fst)).2.1.Meters (s.readFirst d (fs.map Prod.fst)).2.2 := by
  -- the files that are left, and the directory holds just these
  induction fs generalizing s d ls with
  | nil => exact hm
  | cons file rest ih =>
    obtain ⟨name, c⟩ := file
    have hn : isEventFile name = true := h.isEventFile_of_mem List.mem_cons_self
    have hreleased : (if s.current = some name then { s with current := none } else s) =
        s.released name := rfl
    obtain ⟨r, s₁, d₁, fs₁, ls₁, hrun, h₁, hread⟩ :=
      readFile_housed (s.released name) h hp (Named.get?_first name c rest)
    -- what is set aside is taken off the total when the file has been replaced
    have hm₁ : s₁.Meters d₁ := by
      rw [Meters, h.files_eq] at hm
      rw [Meters, h₁.files_eq]
      exact hread.total_first h.ordered hm
    obtain ⟨c', -, rfl⟩ := hread.first
    rw [List.map_cons, tellsRemoved, hrun] at ht
    rw [List.map_cons, readFirst, hreleased, hrun]
    rcases r with f | _ | ⟨e, es⟩
    · exact hm₁
    · -- the file is removed, and its size is told
      obtain ⟨htold, hrest⟩ := Bool.and_eq_true_iff.mp ht
      obtain ⟨hremoved, -⟩ :=
        removeFile_meters s₁ h₁ hn (.inr ⟨c', Named.get?_first name c' rest⟩) htold hm₁
      rcases removeFile_housed s₁ h₁ hn with
        ⟨size, d₂, hremove, h₂, -⟩ | ⟨f, d₂, hremove, h₂, -⟩
      · rw [h₁.ordered.erase_first] at h₂
        rw [hremove] at hremoved hrest
        simp only [hremove]
        exact ih { s₁ with total := s₁.total - size } h₂ hrest hremoved
      · rw [hremove] at hremoved
        simp only [hremove]
        exact hremoved
    · exact hm₁

theorem nextBatch_meters (s : Spool) (h : d.Houses p host fs ls) (hp : p.IsUnlinked)
    (ht : s.tellsRead d = true) (hm : s.Meters d) :
    (s.nextBatch d).2.1.Meters (s.nextBatch d).2.2 ∧ Follows s (s.nextBatch d).2.1 := by
  constructor
  · rw [Meters, h.files_eq] at hm
    rcases h.listFiles with ⟨d₁, hlist, h₁⟩ | ⟨f, d₁, hlist, h₁, -⟩
    · have hm₁ : s.Meters d₁ := by
        rw [Meters, h₁.files_eq, hm]
      rw [tellsRead, hlist] at ht
      have hread := readFirst_meters s h₁ hp ht hm₁
      simp only [nextBatch, hlist]
      exact hread
    · simp only [nextBatch, hlist, Meters, h₁.files_eq]
      exact hm
  · obtain ⟨r, s', d', fs', ls', hrun, -, hread⟩ := nextBatch_housed s h hp
    rw [hrun]
    rcases hread with ⟨f, -, rfl, -⟩ | hread
    · exact .refl _
    · exact hread.follows

theorem tellsRemoved_of_willing (s : Spool) (h : d.Houses p host fs ls) (hp : p.IsUnlinked)
    (hw : host.IsWilling) (hfits : ∀ f ∈ fs, p.Fits f.1) :
    s.tellsRemoved d (fs.map Prod.fst) = true := by
  induction fs generalizing s d ls with
  | nil => rfl
  | cons file rest ih =>
    obtain ⟨name, c⟩ := file
    have hn : isEventFile name = true := h.isEventFile_of_mem List.mem_cons_self
    have hfit : p.Fits name := hfits _ List.mem_cons_self
    obtain ⟨r, s₁, d₁, fs₁, ls₁, hrun, h₁, hread⟩ :=
      readFile_housed (s.released name) h hp (Named.get?_first name c rest)
    obtain ⟨c', -, rfl⟩ := hread.first
    rw [List.map_cons, tellsRemoved, hrun]
    rcases r with f | _ | ⟨e, es⟩
    · rfl
    · have htold :=
        h₁.tellsSize_of_willing hn (.inr ⟨c', Named.get?_first name c' rest⟩) hw hfit
      simp only [htold, Bool.true_and]
      rcases removeFile_housed s₁ h₁ hn with ⟨size, d₂, hremove, h₂, -⟩ | ⟨f, d₂, hremove, -⟩
      · rw [h₁.ordered.erase_first] at h₂
        simp only [hremove]
        exact ih { s₁ with total := s₁.total - size } h₂
          fun f hf => hfits f (List.mem_cons_of_mem _ hf)
      · simp only [hremove, failed]
    · rfl

/-- A host that refuses no call keeps back no size from a reading either. -/
theorem tellsRead_of_willing (s : Spool) (h : d.Houses p host fs ls) (hp : p.IsUnlinked)
    (hw : host.IsWilling) (hfits : ∀ f ∈ fs, p.Fits f.1) : s.tellsRead d = true := by
  rw [tellsRead]
  rcases h.listFiles with ⟨d', hlist, h'⟩ | ⟨f, d', hlist, -⟩
  · rw [hlist]
    exact tellsRemoved_of_willing s h' hp hw hfits
  · rw [hlist]

/-! ## Gauges -/

theorem refreshGauges_meters (s : Spool) (h : d.Houses p host fs ls) (ht : d.tellsAll = true)
    (hm : s.Meters d) :
    (s.refreshGauges d).2.1.Meters (s.refreshGauges d).2.2 ∧
    Follows s (s.refreshGauges d).2.1 := by
  rw [Meters, h.files_eq] at hm
  rcases refreshGauges_housed s h with ⟨total, d', hrun, h', htold⟩ | ⟨f, d', hrun, h', -⟩
  · obtain rfl := htold ht
    rw [hrun, Meters, h'.files_eq]
    exact ⟨rfl, rfl, rfl, .inl rfl, le_refl _, hm.ge, List.Subset.refl _⟩
  · rw [hrun, Meters, h'.files_eq]
    exact ⟨hm, .refl s⟩

/-! ## Writing -/

/-- No event file has a stamp that is still to be given, the current one neither, and an empty file
is below the limit. -/
structure IsAhead (s : Spool) (fs : Named Octets) : Prop where
  fileLimit : 0 < s.fileLimit
  files : ∀ f ∈ fs, ∃ n, f.1 = fileName eventStem n ∧ n ≤ s.highestStamp
  current : ∀ name, s.current = some name → ∃ n, name = fileName eventStem n ∧ n ≤ s.highestStamp

/-- A new stamp is that of no event file. -/
theorem IsAhead.get?_eq_none (h : s.IsAhead fs) {n : Nat} (hn : s.highestStamp < n) :
    Named.get? fs (fileName eventStem n) = none := by
  cases hg : Named.get? fs (fileName eventStem n) with
  | none => rfl
  | some c =>
    obtain ⟨m, hm, hle⟩ := h.files _ (Named.mem_of_get? hg)
    have hnm : n = m := stamp_injective hm
    omega

/-- The file that has been chosen for the next event is below its limit. -/
theorem IsAhead.small (h : s.IsAhead fs) {n highest : Nat} (ha : Aims host s fs n highest) :
    ((Named.get? fs (fileName eventStem n)).getD []).length < s.fileLimit := by
  cases ha with
  | current hcurrent hsmall => exact hsmall
  | new hn =>
    rw [h.get?_eq_none hn.behind]
    exact h.fileLimit

/-- The stamp of the chosen file has been given. -/
theorem IsAhead.aimed (h : s.IsAhead fs) {n highest : Nat} (ha : Aims host s fs n highest) :
    (s.aimed n highest).IsAhead fs ∧ n ≤ highest := by
  have hn : n ≤ highest := by
    refine ha.stamp_le fun name hname => ?_
    obtain ⟨m, hm, hle⟩ := h.current name hname
    exact ⟨m, hle, hm⟩
  refine ⟨⟨h.fileLimit, ?_, ?_⟩, hn⟩
  · intro f hf
    obtain ⟨m, hm, hle⟩ := h.files f hf
    exact ⟨m, hm, hle.trans ha.highest_ge⟩
  · intro name hname
    exact ⟨n, (Option.some.inj hname).symm, hn⟩

end Spool

end AuditRelay
