import AuditRelay.Proofs.Named
import AuditRelay.Proofs.Store.Walk

/-!
# AuditRelay.Proofs.Store.Directory — the entries of a directory, and where their names lead

`Disk.Shows` says that a directory is there with given entries, on a host that refuses no call. It
still is when a file is put in or the entries are replaced. A name that is no link and no dot leads
to its own entry (`Shows.spot`); nothing is assumed of the tree around the directory.
-/

namespace AuditRelay

/-- Where a spool works: the directory, the octets that a name may have, and what was found there
at first. -/
structure Place where
  reached : Reached
  room : Int
  found : Entries

namespace Place

/-- The name is not too long for the directory. -/
structure Fits (p : Place) (name : String) : Prop where
  room : (name.utf8ByteSize : Int) ≤ p.room
  name : name.utf8ByteSize ≤ Volume.maxName

/-- The opened file under a name. -/
def handle (p : Place) (name : String) : Handle := .file (p.reached.names ++ [name])

end Place

/-- A name that stands for an entry: it is not empty and no dots. -/
structure IsEntryName (name : String) : Prop where
  ne_empty : name ≠ ""
  ne_dot : name ≠ "."
  ne_dots : name ≠ ".."

/-- What stands under the name is no link. -/
def IsUnlinked (es : Entries) (name : String) : Prop :=
  ∀ target, Named.get? es name ≠ some (.link target)

/-- A file can be written under the name. -/
def IsWritable (es : Entries) (name : String) : Prop :=
  Named.get? es name = none ∨ ∃ c mode, Named.get? es name = some (.file c mode)

theorem IsWritable.isUnlinked {es : Entries} {name : String} (h : IsWritable es name) :
    IsUnlinked es name := by
  intro target ht
  rcases h with hg | ⟨c, mode, hg⟩ <;> rw [hg] at ht <;> cases ht

theorem not_isWritable {es : Entries} {name : String} {node : Node}
    (hg : Named.get? es name = some node) (hnode : ∀ c mode, node ≠ .file c mode) :
    ¬ IsWritable es name := by
  rintro (hw | ⟨c, mode, hw⟩)
  · rw [hg] at hw
    contradiction
  · rw [hg] at hw
    exact hnode c mode (Option.some.inj hw)

/-- The contents of the file under a name, if there is one. -/
def contentsOf (es : Entries) (name : String) : Octets :=
  match Named.get? es name with
  | some (.file c _) => c
  | _ => []

/-- Putting the contents of a file again changes nothing. -/
theorem insert_contentsOf {es : Entries} (ho : Named.IsOrdered es) {name : String} {c : Octets}
    {mode : Nat} (hg : Named.get? es name = some (.file c mode)) :
    Named.insert name (.file (contentsOf es name) mode) es = es := by
  refine ho.insert_eq_self ?_
  rw [hg, contentsOf, hg]

namespace Volume

/-- Putting something under a name of a directory is putting the directory with it. -/
theorem put_append {root new : Node} {names : List String} {es : Entries} {mode : Nat}
    (h : find? root names = some (.directory es mode)) (name : String) :
    put new root (names ++ [name]) = put (.directory (Named.insert name new es) mode) root names := by
  induction names generalizing root with
  | nil =>
    simp only [find?, Option.some.injEq] at h
    subst h
    cases hg : Named.get? es name <;> simp [put, hg]
  | cons part names ih =>
    cases root with
    | directory es' mode' =>
      simp only [find?] at h
      cases hg : Named.get? es' part with
      | none =>
        rw [hg] at h
        contradiction
      | some node =>
        rw [hg] at h
        simp only [List.cons_append, put, hg, ih h]
    | file | link | sink | full => simp [find?] at h

end Volume

namespace Disk

/-- The directory is there with these entries, and its host refuses no call. -/
structure Shows (p : Place) (d : Disk) (es : Entries) : Prop where
  directory : d.directory = .ok p.reached
  room : d.room = p.room
  reached : ∃ mode, Volume.find? d.root p.reached.names = some (.directory es mode)
  ordered : Named.IsOrdered es
  willing : ∀ n, d.host.refuse n = none

namespace Shows

variable {p : Place} {d : Disk} {es : Entries} {name : String}

theorem entries (h : d.Shows p es) : d.entries = .ok es := by
  obtain ⟨mode, hf⟩ := h.reached
  rw [Disk.entries, h.directory]
  simp only [hf]

/-- Nothing of the entries depends on the numbers of calls and readings. -/
theorem counted (h : d.Shows p es) (calls readings : Nat) :
    Shows p { d with calls, readings } es :=
  ⟨h.directory, h.room, h.reached, h.ordered, h.willing⟩

theorem withEntries (h : d.Shows p es) {es' : Entries} (ho : Named.IsOrdered es') :
    (d.withEntries es').Shows p es' := by
  obtain ⟨mode, hf⟩ := h.reached
  rw [Disk.withEntries, h.directory]
  simp only [hf]
  exact ⟨rfl, h.room, ⟨mode, Volume.find?_put hf⟩, ho, h.willing⟩

theorem putFile (h : d.Shows p es) (name : String) (c : Octets) (mode : Nat) :
    (d.putFile (p.reached.names ++ [name]) c mode).Shows p
      (Named.insert name (.file c mode) es) := by
  obtain ⟨m, hf⟩ := h.reached
  refine ⟨h.directory, h.room, ⟨m, ?_⟩, h.ordered.insert _ _, h.willing⟩
  show Volume.find? (Volume.put _ d.root (p.reached.names ++ [name])) p.reached.names = _
  rw [Volume.put_append hf name, Volume.find?_put hf]

/-! ## Where a name leads -/

theorem find (h : d.Shows p es) (name : String) :
    Volume.find? d.root (p.reached.names ++ [name]) = Named.get? es name := by
  obtain ⟨mode, hf⟩ := h.reached
  rw [Volume.find?_append, hf, Option.bind_some, Volume.find?]
  cases Named.get? es name <;> rfl

/-- A name of the directory leads to its entry, unless it is too long. -/
theorem spot (h : d.Shows p es) (hn : IsEntryName name) (aim : Volume.Aim)
    (hl : aim = .entry ∨ IsUnlinked es name) :
    (p.Fits name → d.spot aim name =
      .ok ⟨p.reached.names ++ [name], Named.get? es name, p.reached.links⟩) ∧
    (¬ p.Fits name → d.spot aim name = .error .nameTooLong) := by
  obtain ⟨mode, hf⟩ := h.reached
  have hempty : (name = "" || name = ".") = false := by
    simp [hn.ne_empty, hn.ne_dot]
  have hfile : (aim = .file && ([] : List String) = [""]) = false := by simp
  have hwalk : Volume.walkFrom d.root aim p.reached.links p.reached.names [name] =
      if Volume.maxName < name.utf8ByteSize then .error .nameTooLong
      else .ok ⟨p.reached.names ++ [name], Named.get? es name, p.reached.links⟩ := by
    obtain ⟨follow, hw⟩ := Volume.walk_eq_walkBy d.root aim p.reached.links
    rw [Volume.walkFrom, hf]
    simp only [hw, Volume.walkBy]
    simp only [hempty, Bool.false_eq_true, if_false, if_neg hn.ne_dots, hfile]
    split
    · rfl
    · cases hg : Named.get? es name with
      | none => simp
      | some node =>
        cases node with
        | link target =>
          rcases hl with rfl | hl
          · simp
          · exact absurd hg (hl target)
        | file | directory | sink | full => simp
  constructor
  · intro hfit
    have hroom : ¬ d.room < name.utf8ByteSize := by
      rw [h.room]
      exact not_lt.mpr hfit.room
    rw [Disk.spot, if_neg hroom, h.directory]
    simp only
    rw [hwalk, if_neg (not_lt.mpr hfit.name)]
  · intro hfit
    rw [Disk.spot]
    split
    · rfl
    · rename_i hroom
      rw [h.directory]
      simp only
      rw [hwalk, if_pos]
      by_contra hname
      exact hfit ⟨by rw [← h.room]; exact not_lt.mp hroom, not_lt.mp hname⟩

end Shows

end Disk

end AuditRelay
