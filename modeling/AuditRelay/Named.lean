/-!
# AuditRelay.Named — values under names

The members of an object and the entries of a directory are values under names, in the order of the
names and each name once. `insert` and `erase` keep that order (`IsOrdered`), and what has been
inserted is found (`get?_insert_self`).
-/

namespace AuditRelay

/-- Values under names. -/
abbrev Named (α : Type) := List (String × α)

namespace Named

variable {α : Type}

/-- Puts a value under a name, in place of an earlier one. -/
def insert (key : String) (value : α) : Named α → Named α
  | [] => [(key, value)]
  | (k, v) :: rest =>
    if key = k then (key, value) :: rest
    else if key < k then (key, value) :: (k, v) :: rest
    else (k, v) :: insert key value rest

/-- Takes away the value under a name. -/
def erase (key : String) (ms : Named α) : Named α :=
  ms.filter fun m => m.1 ≠ key

/-- The value under a name. -/
def get? (ms : Named α) (key : String) : Option α :=
  ms.lookup key

theorem get?_insert_self (key : String) (value : α) (ms : Named α) :
    get? (insert key value ms) key = some value := by
  induction ms with
  | nil => simp [insert, get?]
  | cons m rest ih =>
    obtain ⟨k, v⟩ := m
    simp only [insert]
    split
    · simp [get?]
    · split
      · simp [get?]
      · rename_i h _
        have hk : (key == k) = false := beq_false_of_ne h
        rw [get?, List.lookup_cons, hk]
        exact ih

/-- The values of a list of pairs; the last value of a name wins. -/
def ofList (ps : List (String × α)) : Named α :=
  ps.foldl (fun ms (k, v) => insert k v ms) []

/-- Names stand in strictly rising order. -/
def IsOrdered (ms : Named α) : Prop :=
  ms.Pairwise fun a b => a.1 < b.1

end Named

end AuditRelay
