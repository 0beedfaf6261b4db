import AuditRelay.Proofs.Store.Housing

/-!
# AuditRelay.Proofs.Store.Told — sizes that are told

A spool asks for the sizes of its event files and takes a file whose size it cannot learn for an empty
one. Here it is said when the sizes that it asks for are told (`Disk.tellsSize`), and that what it adds
up then is what is in the files. A host that refuses no call tells all sizes of files whose names are
not too long.
-/

namespace AuditRelay

open Spool (isEventFile octetsIn)

namespace Disk

/-- If the size of an event file is asked for now it is told, unless there is no such file. -/
def tellsSize (d : Disk) (name : String) : Bool :=
  match d.size name with
  | (.ok _, _) => true
  | (.error f, _) => f = .notFound && (Named.get? d.files name).isNone

/-- The sizes of these files are told, one after the other. -/
def tellsEach (d : Disk) : List String → Bool
  | [] => true
  | name :: names => d.tellsSize name && (Spool.sizeOrZero d name).2.tellsEach names

/-- If the directory is listed, the sizes of its event files are told. -/
def tellsAll (d : Disk) : Bool :=
  match Spool.listFiles d with
  | (.ok names, d) => d.tellsEach names
  | (.error _, _) => true

namespace Houses

variable {p : Place} {host : Host} {d : Disk} {fs : Named Octets} {ls : Nat → Octets}
  {name : String} {c : Octets}

/-- What the size of an event file is said to be, if nothing but a file can stand under its name. -/
theorem size_told (h : d.Houses p host fs ls) (hn : isEventFile name = true)
    (hfile : p.IsRegular ∨ ∃ c, Named.get? fs name = some c) :
    (∃ c, Named.get? fs name = some c ∧ (d.size name).1 = .ok c.length) ∨
    (Named.get? fs name = none ∧ (d.size name).1 = .error .notFound) ∨
    (∃ f, (d.size name).1 = .error f ∧ ¬ (host.IsWilling ∧ p.Fits name)) := by
  obtain ⟨es, hes, hg, rfl, -⟩ := h
  have hwritable : IsWritable es name := by
    rcases hfile with hr | ⟨c, hc⟩
    · exact hr.isWritable hg hn
    · obtain ⟨-, mode, hthere⟩ := Spool.get?_files hes.ordered hc
      exact .inr ⟨c, mode, hthere⟩
  rcases hes.size_cases (Spool.isEntryName_of_isEventFile hn) hwritable with
    ⟨c, mode, hthere, hsize⟩ | ⟨hnone, hsize⟩ | hno
  · exact .inl ⟨c, Spool.get?_files_of_file hn hthere, hsize⟩
  · exact .inr (.inl ⟨Spool.get?_files_eq_none hes.ordered hnone, hsize⟩)
  · exact .inr (.inr hno)

/-- A host that refuses no call keeps back no size. -/
theorem tellsSize_of_willing (h : d.Houses p host fs ls) (hn : isEventFile name = true)
    (hfile : p.IsRegular ∨ ∃ c, Named.get? fs name = some c) (hw : host.IsWilling)
    (hfit : p.Fits name) : d.tellsSize name = true := by
  have htold := h.size_told hn hfile
  rw [tellsSize]
  rcases hsize : d.size name with ⟨r, d'⟩
  rw [hsize] at htold
  rcases htold with ⟨c, hg, htold⟩ | ⟨hnone, htold⟩ | ⟨f, -, hno⟩
  · obtain rfl : r = _ := htold
    rfl
  · obtain rfl : r = _ := htold
    simp only [h.files_eq, hnone]
    decide
  · exact absurd ⟨hw, hfit⟩ hno

theorem tellsEach_of_willing (h : d.Houses p host fs ls) (hw : host.IsWilling)
    {gs : Named Octets} (hgs : ∀ g ∈ gs, g ∈ fs ∧ p.Fits g.1) :
    d.tellsEach (gs.map Prod.fst) = true := by
  induction gs generalizing d with
  | nil => rfl
  | cons g gs ih =>
    obtain ⟨hmem, hfit⟩ := hgs g List.mem_cons_self
    have htold := h.tellsSize_of_willing (h.isEventFile_of_mem hmem)
      (.inr ⟨g.2, h.ordered.get?_of_mem hmem⟩) hw hfit
    have hrest := ih (h.sizeOrZero g.1) fun k hk => hgs k (List.mem_cons_of_mem _ hk)
    rw [List.map_cons, tellsEach, htold, hrest, Bool.true_and]

theorem tellsAll_of_willing (h : d.Houses p host fs ls) (hw : host.IsWilling)
    (hfits : ∀ f ∈ fs, p.Fits f.1) : d.tellsAll = true := by
  rw [tellsAll]
  rcases h.listFiles with ⟨d', hlist, h'⟩ | ⟨f, d', hlist, -⟩
  · rw [hlist]
    exact h'.tellsEach_of_willing hw fun g hg => ⟨hg, hfits g hg⟩
  · rw [hlist]

/-- What is counted for a file is its size, and nothing if it is not there. -/
theorem sizeOrZero_told (h : d.Houses p host fs ls) (hn : isEventFile name = true)
    (hfile : p.IsRegular ∨ ∃ c, Named.get? fs name = some c) (ht : d.tellsSize name = true) :
    (Spool.sizeOrZero d name).1 = ((Named.get? fs name).getD []).length := by
  have htold := h.size_told hn hfile
  rw [tellsSize] at ht
  rw [Spool.sizeOrZero]
  rcases hsize : d.size name with ⟨f | n, d'⟩
  · simp only [hsize, Bool.and_eq_true, Option.isNone_iff_eq_none, h.files_eq] at ht
    rw [ht.2]
    rfl
  · rw [hsize] at htold
    rcases htold with ⟨c, hg, htold⟩ | ⟨-, htold⟩ | ⟨f, htold, -⟩
    · rw [hg]
      exact Except.ok.inj htold
    · cases htold
    · cases htold

/-- The sizes of some of the files come to the octets in them. -/
theorem sumSizes_told (h : d.Houses p host fs ls) {gs : Named Octets} (hgs : ∀ g ∈ gs, g ∈ fs)
    (ht : d.tellsEach (gs.map Prod.fst) = true) :
    (Spool.sumSizes d (gs.map Prod.fst)).1 = octetsIn gs := by
  induction gs generalizing d with
  | nil => rfl
  | cons g gs ih =>
    obtain ⟨name, c⟩ := g
    have hmem : (name, c) ∈ fs := hgs _ List.mem_cons_self
    have hg : Named.get? fs name = some c := h.ordered.get?_of_mem hmem
    rw [List.map_cons, tellsEach, Bool.and_eq_true] at ht
    have hsize := h.sizeOrZero_told (h.isEventFile_of_mem hmem) (.inr ⟨c, hg⟩) ht.1
    rw [hg] at hsize
    have hrest := ih (h.sizeOrZero name) (fun g' hg' => hgs g' (List.mem_cons_of_mem _ hg')) ht.2
    rw [List.map_cons, Spool.sumSizes, Spool.octetsIn_cons]
    simp only
    rw [hsize, hrest]
    rfl

/-- If the sizes are told when the directory is listed, they come to what is in it. -/
theorem sumSizes_listed (h : d.Houses p host fs ls) {d₀ : Disk} (ht : d₀.tellsAll = true)
    (hlist : Spool.listFiles d₀ = (.ok (fs.map Prod.fst), d)) :
    (Spool.sumSizes d (fs.map Prod.fst)).1 = octetsIn fs := by
  rw [tellsAll, hlist] at ht
  exact h.sumSizes_told (fun _ hg => hg) ht

end Houses

end Disk

end AuditRelay
