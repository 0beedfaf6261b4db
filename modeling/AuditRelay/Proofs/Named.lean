import AuditRelay.Named
import Mathlib.Data.String.Basic

/-!
# AuditRelay.Proofs.Named — values under names, look-up and order

Looking up after `insert` and `erase` (`get?_insert`, `get?_erase`), the order they keep, and what
`insert` does to a list whose names all come before the new one, or not after it.
-/

namespace AuditRelay.Named

variable {α β : Type}

/-! ## Look-up -/

theorem get?_cons (k key : String) (v : α) (ms : Named α) :
    get? ((k, v) :: ms) key = if key = k then some v else get? ms key := by
  by_cases h : key = k
  · subst h
    simp [get?]
  · have hb : (key == k) = false := beq_false_of_ne h
    simp [get?, List.lookup_cons, hb, h]

theorem get?_first (key : String) (v : α) (ms : Named α) : get? ((key, v) :: ms) key = some v := by
  rw [get?_cons, if_pos rfl]

theorem erase_cons (k key : String) (v : α) (ms : Named α) :
    erase key ((k, v) :: ms) = if k = key then erase key ms else (k, v) :: erase key ms := by
  by_cases hk : k = key <;> simp [erase, hk]

theorem get?_insert (key name : String) (value : α) (ms : Named α) :
    get? (insert key value ms) name = if name = key then some value else get? ms name := by
  induction ms with
  | nil => rw [insert, get?_cons]
  | cons m ms ih =>
    obtain ⟨k, v⟩ := m
    simp only [insert]
    by_cases hk : key = k
    · subst hk
      rw [if_pos rfl, get?_cons, get?_cons]
      by_cases hn : name = key <;> simp [hn]
    · rw [if_neg hk]
      by_cases hlt : key < k
      · rw [if_pos hlt, get?_cons]
      · rw [if_neg hlt, get?_cons, get?_cons, ih]
        by_cases hn : name = k
        · subst hn
          rw [if_pos rfl, if_neg (Ne.symm hk), if_pos rfl]
        · rw [if_neg hn, if_neg hn]

theorem get?_erase (key name : String) (ms : Named α) :
    get? (erase key ms) name = if name = key then none else get? ms name := by
  induction ms with
  | nil => simp [erase, get?]
  | cons m ms ih =>
    obtain ⟨k, v⟩ := m
    by_cases hk : k = key
    · subst hk
      rw [erase_cons, if_pos rfl, ih, get?_cons]
      by_cases hn : name = k <;> simp [hn]
    · rw [erase_cons, if_neg hk, get?_cons, get?_cons, ih]
      by_cases hn : name = k
      · subst hn
        rw [if_pos rfl, if_neg hk, if_pos rfl]
      · rw [if_neg hn, if_neg hn]

theorem mem_of_get? {ms : Named α} {key : String} {value : α} (h : get? ms key = some value) :
    (key, value) ∈ ms := by
  induction ms with
  | nil => simp [get?] at h
  | cons m ms ih =>
    obtain ⟨k, v⟩ := m
    rw [get?_cons] at h
    by_cases hk : key = k
    · rw [if_pos hk] at h
      rw [hk, Option.some.inj h]
      exact List.mem_cons_self
    · rw [if_neg hk] at h
      exact List.mem_cons_of_mem _ (ih h)

theorem IsOrdered.get?_of_mem {ms : Named α} (ho : IsOrdered ms) {key : String} {value : α}
    (h : (key, value) ∈ ms) : get? ms key = some value := by
  induction ms with
  | nil => cases h
  | cons m ms ih =>
    obtain ⟨k, v⟩ := m
    obtain ⟨hlt, ho'⟩ := List.pairwise_cons.mp ho
    rw [get?_cons]
    rcases List.mem_cons.mp h with heq | hmem
    · obtain ⟨rfl, rfl⟩ := Prod.mk.inj heq
      exact if_pos rfl
    · have hk : k < key := hlt _ hmem
      rw [if_neg (ne_of_gt hk)]
      exact ih ho' hmem

/-- The later of two values under one name stays. -/
theorem insert_insert (key : String) (value earlier : α) (ms : Named α) :
    insert key value (insert key earlier ms) = insert key value ms := by
  induction ms with
  | nil => simp only [insert, if_true]
  | cons m ms ih =>
    obtain ⟨k, v⟩ := m
    simp only [insert]
    by_cases hk : key = k
    · simp only [if_pos hk, insert, if_true]
    · by_cases hlt : key < k
      · simp only [if_neg hk, if_pos hlt, insert, if_true]
      · simp only [if_neg hk, if_neg hlt, insert, ih]

/-! ## Order -/

theorem mem_insert {key : String} {value : α} {ms : Named α} {p : String × α}
    (h : p ∈ insert key value ms) : p = (key, value) ∨ p ∈ ms := by
  induction ms with
  | nil => exact .inl (List.mem_singleton.mp h)
  | cons m ms ih =>
    obtain ⟨k, v⟩ := m
    simp only [insert] at h
    split at h
    · rcases List.mem_cons.mp h with h | h
      · exact .inl h
      · exact .inr (List.mem_cons_of_mem _ h)
    · split at h
      · rcases List.mem_cons.mp h with h | h
        · exact .inl h
        · exact .inr h
      · rcases List.mem_cons.mp h with h | h
        · exact .inr (h ▸ List.mem_cons_self)
        · rcases ih h with h | h
          · exact .inl h
          · exact .inr (List.mem_cons_of_mem _ h)

theorem IsOrdered.insert {ms : Named α} (ho : IsOrdered ms) (key : String) (value : α) :
    IsOrdered (Named.insert key value ms) := by
  induction ms with
  | nil => exact List.pairwise_singleton _ _
  | cons m ms ih =>
    obtain ⟨k, v⟩ := m
    obtain ⟨hlt, ho'⟩ := List.pairwise_cons.mp ho
    simp only [Named.insert]
    split
    · rename_i hk
      exact List.pairwise_cons.mpr ⟨fun p hp => hk ▸ hlt p hp, ho'⟩
    · split
      · rename_i hne hkey
        refine List.pairwise_cons.mpr ⟨fun p hp => ?_, ho⟩
        rcases List.mem_cons.mp hp with rfl | hp
        · exact hkey
        · exact lt_trans hkey (hlt p hp)
      · rename_i hne hkey
        refine List.pairwise_cons.mpr ⟨fun p hp => ?_, ih ho'⟩
        rcases mem_insert hp with rfl | hp
        · exact lt_of_le_of_ne (not_lt.mp hkey) (Ne.symm hne)
        · exact hlt p hp

theorem IsOrdered.erase {ms : Named α} (ho : IsOrdered ms) (key : String) :
    IsOrdered (Named.erase key ms) :=
  ho.filter _

/-- Putting again what is there already changes nothing. -/
theorem IsOrdered.insert_eq_self {ms : Named α} (ho : IsOrdered ms) {key : String} {value : α}
    (h : get? ms key = some value) : Named.insert key value ms = ms := by
  induction ms with
  | nil => simp [get?] at h
  | cons m ms ih =>
    obtain ⟨k, v⟩ := m
    obtain ⟨hlt, ho'⟩ := List.pairwise_cons.mp ho
    rw [get?_cons] at h
    by_cases hk : key = k
    · rw [if_pos hk] at h
      rw [Named.insert, if_pos hk, hk, Option.some.inj h]
    · rw [if_neg hk] at h
      have hbehind : k < key := hlt _ (mem_of_get? h)
      rw [Named.insert, if_neg hk, if_neg (not_lt_of_gt hbehind), ih ho' h]

/-- A name behind all others is put at the end. -/
theorem insert_of_forall_lt {key : String} {ms : Named α} (value : α)
    (h : ∀ p ∈ ms, p.1 < key) : insert key value ms = ms ++ [(key, value)] := by
  induction ms with
  | nil => rfl
  | cons m ms ih =>
    obtain ⟨k, v⟩ := m
    have hk : k < key := h (k, v) List.mem_cons_self
    rw [insert, if_neg (ne_of_gt hk), if_neg (not_lt_of_gt hk),
      ih fun p hp => h p (List.mem_cons_of_mem _ hp), List.cons_append]

/-- A name before all others is put in front. -/
theorem insert_of_forall_gt {key : String} {ms : Named α} (value : α)
    (h : ∀ p ∈ ms, key < p.1) : insert key value ms = (key, value) :: ms := by
  cases ms with
  | nil => rfl
  | cons m ms =>
    have hk : key < m.1 := h m List.mem_cons_self
    rw [insert, if_neg (ne_of_lt hk), if_pos hk]

theorem erase_of_forall_ne {key : String} {ms : Named α} (h : ∀ p ∈ ms, p.1 ≠ key) :
    erase key ms = ms := by
  rw [erase, List.filter_eq_self]
  intro p hp
  simpa using h p hp

/-- Choosing among the names and putting one in can be done in either order. -/
theorem IsOrdered.filter_insert {ms : Named α} (ho : IsOrdered ms) (keep : String → Bool)
    (key : String) (value : α) :
    (Named.insert key value ms).filter (fun m => keep m.1) =
      if keep key then Named.insert key value (ms.filter fun m => keep m.1)
      else ms.filter fun m => keep m.1 := by
  induction ms with
  | nil => by_cases hkey : keep key = true <;> simp [Named.insert, hkey]
  | cons m ms ih =>
    obtain ⟨k, v⟩ := m
    obtain ⟨hlt, ho'⟩ := List.pairwise_cons.mp ho
    rw [Named.insert]
    by_cases heq : key = k
    · subst heq
      by_cases hkey : keep key = true <;> simp [Named.insert, hkey]
    · by_cases hbefore : key < k
      · -- all names that are chosen come behind the new one
        have hgt : ∀ p ∈ ((k, v) :: ms).filter (fun m => keep m.1), key < p.1 := by
          intro p hp
          rcases List.mem_cons.mp (List.mem_filter.mp hp).1 with rfl | hp
          · exact hbefore
          · exact lt_trans hbefore (hlt p hp)
        rw [if_neg heq, if_pos hbefore, insert_of_forall_gt value hgt, List.filter_cons]
      · rw [if_neg heq, if_neg hbefore, List.filter_cons, ih ho', List.filter_cons]
        by_cases hkey : keep key = true <;> by_cases hk : keep k = true <;>
          simp [Named.insert, hkey, hk, heq, hbefore]

/-- The first of the names is erased, and no other one. -/
theorem IsOrdered.erase_first {key : String} {value : α} {ms : Named α}
    (ho : IsOrdered ((key, value) :: ms)) : Named.erase key ((key, value) :: ms) = ms := by
  obtain ⟨hlt, -⟩ := List.pairwise_cons.mp ho
  rw [erase_cons, if_pos rfl]
  exact erase_of_forall_ne fun p hp => ne_of_gt (hlt p hp)

/-- A name with none behind it is put at the end, in place of an earlier value. -/
theorem IsOrdered.insert_last {ms : Named α} (ho : IsOrdered ms) {key : String} (value : α)
    (h : ∀ p ∈ ms, p.1 ≤ key) :
    Named.insert key value ms = Named.erase key ms ++ [(key, value)] := by
  induction ms with
  | nil => rfl
  | cons m ms ih =>
    obtain ⟨k, v⟩ := m
    obtain ⟨hlt, ho'⟩ := List.pairwise_cons.mp ho
    have hk : k ≤ key := h (k, v) List.mem_cons_self
    by_cases heq : key = k
    · subst heq
      -- nothing can stand behind it
      have hnil : ms = [] := by
        cases ms with
        | nil => rfl
        | cons p ms =>
          have h₁ : key < p.1 := hlt p List.mem_cons_self
          have h₂ : p.1 ≤ key := h p (by simp)
          exact absurd h₁ (not_lt.mpr h₂)
      subst hnil
      simp [Named.insert, Named.erase]
    · have hne : k ≠ key := fun h => heq h.symm
      rw [Named.insert, if_neg heq, if_neg (not_lt.mpr hk),
        ih ho' fun p hp => h p (List.mem_cons_of_mem _ hp), erase_cons, if_neg hne,
        List.cons_append]

/-- What stands under a name with none behind it is the last. -/
theorem IsOrdered.eq_erase_append {ms : Named α} (ho : IsOrdered ms) {key : String}
    (h : ∀ p ∈ ms, p.1 ≤ key) :
    ms = Named.erase key ms ++ (get? ms key).toList.map fun v => (key, v) := by
  cases hg : get? ms key with
  | none =>
    have hne : ∀ p ∈ ms, p.1 ≠ key := by
      rintro ⟨k, v⟩ hp rfl
      rw [ho.get?_of_mem hp] at hg
      contradiction
    simp [erase_of_forall_ne hne]
  | some v =>
    rw [Option.toList_some, List.map_singleton, ← ho.insert_last v h, ho.insert_eq_self hg]

end AuditRelay.Named
