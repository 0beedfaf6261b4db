import AuditRelay.Proofs.Store.Directory
import AuditRelay.Proofs.Store.Lines
import AuditRelay.Proofs.Store.Names
import AuditRelay.Store.Spool

/-!
# AuditRelay.Proofs.Store.Files — a directory as a sequence of event files

Of a directory a spool sees its event files: names and contents, in the order of the names
(`Spool.files`). Putting and erasing event files is putting and erasing in that sequence
(`files_insert`, `files_erase`), and anything else in the directory leaves it alone.
-/

namespace AuditRelay

namespace Spool

/-- The event files among the entries, with their contents. -/
def files : Entries → Named Octets
  | [] => []
  | (name, .file c _) :: es => if isEventFile name then (name, c) :: files es else files es
  | _ :: es => files es

/-- The octets of all files. -/
def octetsIn (fs : Named Octets) : Nat :=
  (fs.flatMap Prod.snd).length

/-- The events of all files, oldest first. -/
def held (fs : Named Octets) : List Event :=
  fs.flatMap fun f => eventsIn f.2

theorem eventFiles_eq (es : Entries) : eventFiles es = (files es).map Prod.fst := by
  induction es with
  | nil => rfl
  | cons m es ih =>
    obtain ⟨name, node⟩ := m
    cases node with
    | file c mode =>
      cases hn : isEventFile name with
      | true => simp only [eventFiles, files, hn, if_true, List.map_cons, ih]
      | false => simp only [eventFiles, files, hn, Bool.false_eq_true, if_false, ih]
    | directory | link | sink | full => exact ih

theorem files_cons_of_event {name : String} (h : isEventFile name = true) (c : Octets) (mode : Nat)
    (es : Entries) : files ((name, .file c mode) :: es) = (name, c) :: files es := by
  simp only [files, h, if_true]

/-- An entry is an event file, or it is not seen. -/
theorem files_cons_cases (name : String) (node : Node) :
    (∃ c mode, node = .file c mode ∧ isEventFile name = true) ∨
    (∀ es, files ((name, node) :: es) = files es) := by
  cases node with
  | file c mode =>
    cases hn : isEventFile name with
    | true => exact .inl ⟨c, mode, rfl, rfl⟩
    | false =>
      refine .inr fun es => ?_
      simp only [files, hn, Bool.false_eq_true, if_false]
  | directory | link | sink | full => exact .inr fun _ => rfl

/-- What is not under the name of an event file is not seen. -/
theorem files_cons_of_not {name : String} (h : isEventFile name = false) (node : Node)
    (es : Entries) : files ((name, node) :: es) = files es := by
  rcases files_cons_cases name node with ⟨c, mode, rfl, hn⟩ | he
  · rw [h] at hn
    contradiction
  · exact he es

theorem mem_files {es : Entries} {f : String × Octets} (h : f ∈ files es) :
    isEventFile f.1 = true ∧ ∃ mode, (f.1, Node.file f.2 mode) ∈ es := by
  induction es with
  | nil => cases h
  | cons m es ih =>
    obtain ⟨name, node⟩ := m
    have hrest : f ∈ files es →
        isEventFile f.1 = true ∧ ∃ mode, (f.1, Node.file f.2 mode) ∈ (name, node) :: es := by
      intro h
      obtain ⟨hf, mode, hm⟩ := ih h
      exact ⟨hf, mode, List.mem_cons_of_mem _ hm⟩
    rcases files_cons_cases name node with ⟨c, mode, rfl, hn⟩ | he
    · rw [files_cons_of_event hn] at h
      rcases List.mem_cons.mp h with rfl | h
      · exact ⟨hn, mode, List.mem_cons_self⟩
      · exact hrest h
    · rw [he] at h
      exact hrest h

theorem files_ordered {es : Entries} (ho : Named.IsOrdered es) : Named.IsOrdered (files es) := by
  induction es with
  | nil => exact List.Pairwise.nil
  | cons m es ih =>
    obtain ⟨name, node⟩ := m
    obtain ⟨hlt, ho'⟩ := List.pairwise_cons.mp ho
    rcases files_cons_cases name node with ⟨c, mode, rfl, hn⟩ | he
    · rw [files_cons_of_event hn]
      refine List.pairwise_cons.mpr ⟨fun f hf => ?_, ih ho'⟩
      obtain ⟨-, mode', hm⟩ := mem_files hf
      exact hlt _ hm
    · rw [he]
      exact ih ho'

theorem get?_files {es : Entries} (ho : Named.IsOrdered es) {name : String} {c : Octets}
    (h : Named.get? (files es) name = some c) :
    isEventFile name = true ∧ ∃ mode, Named.get? es name = some (.file c mode) := by
  obtain ⟨hn, mode, hm⟩ := mem_files (Named.mem_of_get? h)
  exact ⟨hn, mode, ho.get?_of_mem hm⟩

theorem get?_files_of_file {es : Entries} {name : String} {c : Octets} {mode : Nat}
    (hn : isEventFile name = true) (h : Named.get? es name = some (.file c mode)) :
    Named.get? (files es) name = some c := by
  induction es with
  | nil => cases h
  | cons m es ih =>
    obtain ⟨k, node⟩ := m
    rw [Named.get?_cons] at h
    by_cases hk : name = k
    · subst hk
      rw [if_pos rfl, Option.some.injEq] at h
      rw [h, files_cons_of_event hn, Named.get?_first]
    · rw [if_neg hk] at h
      rcases files_cons_cases k node with ⟨c', mode', rfl, hn'⟩ | he
      · rw [files_cons_of_event hn', Named.get?_cons, if_neg hk]
        exact ih h
      · rw [he]
        exact ih h

theorem get?_files_eq_none {es : Entries} (ho : Named.IsOrdered es) {name : String}
    (h : Named.get? es name = none) : Named.get? (files es) name = none := by
  rw [Option.eq_none_iff_forall_ne_some]
  intro c hc
  obtain ⟨-, mode, hg⟩ := get?_files ho hc
  rw [h] at hg
  contradiction

/-! ## Octets and events -/

section

variable {fs : Named Octets} {name : String} {c : Octets}

theorem octetsIn_cons (name : String) (c : Octets) (fs : Named Octets) :
    octetsIn ((name, c) :: fs) = c.length + octetsIn fs := by
  rw [octetsIn, List.flatMap_cons, List.length_append, octetsIn]

theorem octetsIn_insert (ho : Named.IsOrdered fs) (name : String) (c : Octets) :
    octetsIn (Named.insert name c fs) + ((Named.get? fs name).getD []).length =
      octetsIn fs + c.length := by
  induction fs with
  | nil => simp [octetsIn, Named.insert, Named.get?]
  | cons f fs ih =>
    obtain ⟨k, v⟩ := f
    obtain ⟨hlt, ho'⟩ := List.pairwise_cons.mp ho
    rw [Named.insert, Named.get?_cons]
    by_cases hk : name = k
    · rw [if_pos hk, if_pos hk, octetsIn_cons, octetsIn_cons, Option.getD_some]
      omega
    · by_cases hname : name < k
      · -- nothing behind it has the name
        have hnone : Named.get? fs name = none := by
          rw [Option.eq_none_iff_forall_ne_some]
          intro v' hv'
          exact absurd (hlt _ (Named.mem_of_get? hv')) (not_lt_of_gt hname)
        rw [if_neg hk, if_pos hname, if_neg hk, hnone, octetsIn_cons, octetsIn_cons]
        simp only [Option.getD_none, List.length_nil]
        omega
      · have ih := ih ho'
        rw [if_neg hk, if_neg hname, if_neg hk, octetsIn_cons, octetsIn_cons]
        omega

theorem octetsIn_erase (ho : Named.IsOrdered fs) (hg : Named.get? fs name = some c) :
    octetsIn (Named.erase name fs) + c.length = octetsIn fs := by
  induction fs with
  | nil => cases hg
  | cons f fs ih =>
    obtain ⟨k, v⟩ := f
    obtain ⟨-, ho'⟩ := List.pairwise_cons.mp ho
    rw [Named.get?_cons] at hg
    by_cases hk : name = k
    · subst hk
      rw [if_pos rfl, Option.some.injEq] at hg
      rw [ho.erase_first, octetsIn_cons, hg]
      omega
    · rw [if_neg hk] at hg
      have ih := ih ho' hg
      rw [Named.erase_cons, if_neg (Ne.symm hk), octetsIn_cons, octetsIn_cons]
      omega

/-- A line is put behind a file or into a new one. -/
theorem octetsIn_put (ho : Named.IsOrdered fs) (name : String) (line : Octets) :
    octetsIn (Named.insert name ((Named.get? fs name).getD [] ++ line) fs) =
      octetsIn fs + line.length := by
  have hsum := octetsIn_insert ho name ((Named.get? fs name).getD [] ++ line)
  rw [List.length_append] at hsum
  omega

theorem octetsIn_erase_add (ho : Named.IsOrdered fs) (name : String) :
    octetsIn (Named.erase name fs) + ((Named.get? fs name).getD []).length = octetsIn fs := by
  cases hg : Named.get? fs name with
  | some c => exact octetsIn_erase ho hg
  | none =>
    have hne : ∀ f ∈ fs, f.1 ≠ name := by
      rintro f hf rfl
      rw [ho.get?_of_mem hf] at hg
      cases hg
    rw [Named.erase_of_forall_ne hne]
    rfl

theorem held_cons (name : String) (c : Octets) (fs : Named Octets) :
    held ((name, c) :: fs) = eventsIn c ++ held fs := by
  rw [held, List.flatMap_cons, held]

theorem held_append (fs gs : Named Octets) : held (fs ++ gs) = held fs ++ held gs := by
  rw [held, List.flatMap_append, held, held]

end

/-! ## Changes of the directory -/

theorem files_insert {es : Entries} (ho : Named.IsOrdered es) {name : String}
    (hn : isEventFile name = true) (c : Octets) (mode : Nat) :
    files (Named.insert name (.file c mode) es) = Named.insert name c (files es) := by
  induction es with
  | nil => exact files_cons_of_event hn c mode []
  | cons m es ih =>
    obtain ⟨k, node⟩ := m
    obtain ⟨hlt, ho'⟩ := List.pairwise_cons.mp ho
    have hlast : ∀ {l : String}, l ≤ k → ∀ f ∈ files es, l < f.1 := by
      intro l hl f hf
      obtain ⟨-, mode', hm⟩ := mem_files hf
      exact lt_of_le_of_lt hl (hlt _ hm)
    rcases files_cons_cases k node with ⟨c', mode', rfl, hn'⟩ | he
    · -- an event file in front is in front of the event files too
      rw [files_cons_of_event hn', Named.insert, Named.insert]
      by_cases hk : name = k
      · rw [if_pos hk, if_pos hk, files_cons_of_event hn]
      · by_cases hlt' : name < k
        · rw [if_neg hk, if_neg hk, if_pos hlt', if_pos hlt', files_cons_of_event hn,
            files_cons_of_event hn']
        · rw [if_neg hk, if_neg hk, if_neg hlt', if_neg hlt', files_cons_of_event hn', ih ho']
    · rw [he, Named.insert]
      by_cases hk : name = k
      · rw [if_pos hk, files_cons_of_event hn, Named.insert_of_forall_gt c (hlast hk.le)]
      · by_cases hlt' : name < k
        · rw [if_neg hk, if_pos hlt', files_cons_of_event hn, he,
            Named.insert_of_forall_gt c (hlast hlt'.le)]
        · rw [if_neg hk, if_neg hlt', he, ih ho']

theorem files_insert_of_not {es : Entries} {name : String} (hn : isEventFile name = false)
    (node : Node) : files (Named.insert name node es) = files es := by
  induction es with
  | nil => exact files_cons_of_not hn node []
  | cons m es ih =>
    obtain ⟨k, v⟩ := m
    rw [Named.insert]
    by_cases hk : name = k
    · subst hk
      rw [if_pos rfl, files_cons_of_not hn, files_cons_of_not hn]
    · by_cases hlt : name < k
      · rw [if_neg hk, if_pos hlt, files_cons_of_not hn]
      · rw [if_neg hk, if_neg hlt]
        rcases files_cons_cases k v with ⟨c, mode, rfl, hn'⟩ | he
        · rw [files_cons_of_event hn', files_cons_of_event hn', ih]
        · rw [he, he, ih]

theorem files_erase (es : Entries) (name : String) :
    files (Named.erase name es) = Named.erase name (files es) := by
  induction es with
  | nil => rfl
  | cons m es ih =>
    obtain ⟨k, v⟩ := m
    rw [Named.erase_cons]
    by_cases hk : k = name
    · rw [if_pos hk, ih]
      rcases files_cons_cases k v with ⟨c, mode, rfl, hn'⟩ | he
      · rw [files_cons_of_event hn', Named.erase_cons, if_pos hk]
      · rw [he]
    · rw [if_neg hk]
      rcases files_cons_cases k v with ⟨c, mode, rfl, hn'⟩ | he
      · rw [files_cons_of_event hn', files_cons_of_event hn', ih, Named.erase_cons, if_neg hk]
      · rw [he, he, ih]

theorem files_erase_of_not {es : Entries} {name : String} (hn : isEventFile name = false) :
    files (Named.erase name es) = files es := by
  rw [files_erase]
  refine Named.erase_of_forall_ne fun f hf hname => ?_
  rw [← hname, (mem_files hf).1] at hn
  contradiction

end Spool

end AuditRelay
