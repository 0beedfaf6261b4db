import AuditRelay.Proofs.Store.Statements
import Mathlib.Logic.Relation

/-!
# AuditRelay.Proofs.Store.Custody — where the rows of a table store are

Any number of readers hold batches, which may overlap and may be committed after their rows are gone.
`Desk` is such a store with every row that has ever been in the event table and those that commits took
out. A row is in the event table, has been moved to the dead letters, or has been committed, and in one
of these places only: `Desk.Places` partitions the rows that were seen. It leaves the table in one way
only, which depends on whether it is an event (`rows_conserved`).
-/

namespace AuditRelay

/-! ## A table among its readers -/

/-- A store over its tables. -/
structure Desk where
  store : TableStore
  db : Database
  /-- Every row that has ever been in the event table. -/
  seen : List Row
  /-- The rows that commits have taken out. -/
  committed : List Row
  /-- The batches that have been read and neither committed nor dropped. -/
  loans : List Batch

namespace Desk

/-- A store that nobody has read yet. -/
def start (s : TableStore) (db : Database) : Desk :=
  ⟨s, db, db.rows, [], []⟩

/-- Somebody writes an event. What is put behind the other rows has been seen from now on. -/
def write (x : Desk) (e : Event) : Desk :=
  { x with
    store := (x.store.write x.db e).2.1
    db := (x.store.write x.db e).2.2
    seen := x.seen ++ (x.store.write x.db e).2.2.rows.drop x.db.rows.length }

/-- A reader reads a batch and holds it. -/
def read (x : Desk) : Desk :=
  { x with
    store := (x.store.nextBatch x.db).2.1
    db := (x.store.nextBatch x.db).2.2
    loans :=
      match (x.store.nextBatch x.db).1 with
      | .ok (some b) => x.loans ++ [b]
      | _ => x.loans }

/-- A reader commits the batch that it holds, and does not hold it any longer. -/
def commit (x : Desk) (b : Batch) : Desk :=
  match b.token with
  | .rows ids =>
    { x with
      store := (x.store.commit x.db ids).2.1
      db := (x.store.commit x.db ids).2.2
      committed :=
        match (x.store.commit x.db ids).1 with
        | .ok () => x.committed ++ x.db.rows.filter (· ∉ (x.store.commit x.db ids).2.2.rows)
        | .error _ => x.committed
      loans := x.loans.erase b }
  | _ => { x with loans := x.loans.erase b }

/-- A reader drops the batch that it holds. -/
def giveUp (x : Desk) (b : Batch) : Desk :=
  { x with loans := x.loans.erase b }

def refresh (x : Desk) : Desk :=
  { x with
    store := (x.store.refreshGauges x.db).2.1
    db := (x.store.refreshGauges x.db).2.2 }

/-- What any of the writers and readers may do next. -/
inductive Step (x : Desk) : Desk → Prop where
  | write (e : Event) : Step x (x.write e)
  | read : Step x x.read
  | commit (b : Batch) (h : b ∈ x.loans) : Step x (x.commit b)
  | giveUp (b : Batch) (h : b ∈ x.loans) : Step x (x.giveUp b)
  | refresh : Step x x.refresh

/-- Any number of writers and readers, in any order. -/
abbrev Reaches : Desk → Desk → Prop :=
  Relation.ReflTransGen Step

/-! ## What is kept -/

open Database

/-- Every row that was seen is in the table, among the letters behind `before`, or committed. -/
structure Places (before : List DeadRow) (x : Desk) (moved : List Row) (letters : List DeadRow) :
    Prop where
  seen : x.seen.Perm (x.db.rows ++ moved ++ x.committed)
  dead : x.db.dead = before ++ letters
  contents : letters.map DeadRow.contents = moved.map Row.contents
  unreadable : ∀ r ∈ moved, r.event? = none

/-- What a store keeps to that began as `s` over `db`. -/
structure Sound (s : TableStore) (db : Database) (x : Desk) : Prop where
  limit : x.store.limit = s.limit
  shown : x.db.shownCount = none
  nodup : (x.seen.map Row.id).Nodup
  given : ∀ r ∈ x.seen, r.id ≤ x.db.lastId
  fresh : ∀ history id, id < x.db.nextId history id
  placed : ∃ moved letters, Places db.dead x moved letters
  loans : ∀ b ∈ x.loans, ∃ ids, b.IsOf x.seen ids
  bounded : x.db.rows.length ≤ max db.rows.length s.limit

variable {s : TableStore} {db : Database} {x y : Desk} {before : List DeadRow} {moved : List Row}
  {letters : List DeadRow}

/-- The rows of the table have been seen. -/
theorem Places.subset (h : Places before x moved letters) : x.db.rows ⊆ x.seen := fun _ hr =>
  h.seen.mem_iff.mpr (List.mem_append_left _ (List.mem_append_left _ hr))

/-- Nothing is placed elsewhere when the tables are the same. -/
theorem Places.keeps (h : Places before x moved letters) {db' : Database} (hkeeps : Keeps x.db db')
    (store : TableStore) (loans : List Batch) :
    Places before { x with store, db := db', loans } moved letters where
  seen := by
    rw [hkeeps.rows]
    exact h.seen
  dead := hkeeps.dead.trans h.dead
  contents := h.contents
  unreadable := h.unreadable

/-- A new row is seen, and is in the table. -/
theorem Places.adds (h : Places before x moved letters) {db' : Database} {r : Row}
    (hrows : db'.rows = x.db.rows ++ [r]) (hdead : db'.dead = x.db.dead) (store : TableStore) :
    Places before { x with store, db := db', seen := x.seen ++ [r] } moved letters where
  seen := by
    have hseen := h.seen.append_right [r]
    rw [List.append_assoc, List.append_assoc] at hseen
    rw [hrows, List.append_assoc, List.append_assoc]
    refine hseen.trans (List.Perm.append_left x.db.rows ?_)
    rw [← List.append_assoc]
    exact List.perm_append_comm
  dead := hdead.trans h.dead
  contents := h.contents
  unreadable := h.unreadable

/-- What leaves the table is placed with what was moved before. -/
theorem Places.setsAside (h : Places before x moved letters) {db' : Database} {moved' : List Row}
    {letters' : List DeadRow} (haside : SetsAside x.db db' moved' letters') (store : TableStore)
    (loans : List Batch) :
    Places before { x with store, db := db', loans } (moved ++ moved') (letters ++ letters') where
  seen := by
    refine h.seen.trans (List.Perm.append_right x.committed ?_)
    refine (haside.rows.append_right moved).trans ?_
    rw [List.append_assoc]
    exact List.perm_append_comm.append_left db'.rows
  dead := by
    rw [haside.dead, h.dead, List.append_assoc]
  contents := by
    rw [List.map_append, List.map_append, h.contents, haside.contents]
  unreadable r hr := (List.mem_append.mp hr).elim (h.unreadable r) (haside.unreadable r)

/-- What leaves the table is placed with what was committed before. -/
theorem Places.deletes (h : Places before x moved letters) {db' : Database} {ids : List Int}
    (hdeletes : Deletes x.db db' ids) (store : TableStore) (loans : List Batch) :
    Places before
      { x with
        store
        db := db'
        committed := x.committed ++ x.db.rows.filter (· ∉ db'.rows)
        loans } moved letters where
  seen := by
    have hrows := (hdeletes.perm.append_right moved).append_right x.committed
    refine h.seen.trans (hrows.trans ?_)
    rw [List.append_assoc, List.append_assoc, List.append_assoc]
    refine List.Perm.append_left db'.rows ?_
    rw [← List.append_assoc moved]
    exact List.perm_append_comm
  dead := hdeletes.dead.trans h.dead
  contents := h.contents
  unreadable := h.unreadable

namespace Sound

theorem start (hfresh : db.HasFreshIds) (hshown : db.shownCount = none) :
    Sound s db (Desk.start s db) where
  limit := rfl
  shown := hshown
  nodup := hfresh.nodup
  given := hfresh.given
  fresh := hfresh.fresh
  placed := by
    refine ⟨[], [], ?_, (List.append_nil _).symm, rfl, fun r hr => absurd hr List.not_mem_nil⟩
    rw [Desk.start, List.append_nil, List.append_nil]
  loans b hb := absurd hb List.not_mem_nil
  bounded := Nat.le_max_left _ _

/-- An operation that leaves the tables alone keeps everything, if it brings no other batch. -/
theorem keeps (h : Sound s db x) {store : TableStore} {db' : Database} {loans : List Batch}
    (hs : x.store.Follows store) (hkeeps : Keeps x.db db') (hloans : loans ⊆ x.loans) :
    Sound s db { x with store, db := db', loans } where
  limit := hs.limit.trans h.limit
  shown := hkeeps.shown.trans h.shown
  nodup := h.nodup
  given r hr := by
    rw [hkeeps.lastId]
    exact h.given r hr
  fresh := by
    rw [hkeeps.nextId]
    exact h.fresh
  placed := by
    obtain ⟨moved, letters, hplaces⟩ := h.placed
    exact ⟨moved, letters, hplaces.keeps hkeeps store loans⟩
  loans b hb := h.loans b (hloans hb)
  bounded := by
    rw [hkeeps.rows]
    exact h.bounded

/-- No two rows in the table have the same identifier. -/
theorem nodup_rows (h : Sound s db x) : (x.db.rows.map Row.id).Nodup := by
  obtain ⟨moved, letters, hplaces⟩ := h.placed
  have hall := (hplaces.seen.map Row.id).nodup_iff.mp h.nodup
  rw [List.append_assoc, List.map_append] at hall
  exact (List.nodup_append.mp hall).1

theorem write (h : Sound s db x) (e : Event) : Sound s db (x.write e) := by
  obtain ⟨hs, hcases⟩ := x.store.write_cases h.shown e
  rcases hcases with ⟨f, -, hkeeps⟩ |
    ⟨-, hroom, ⟨history, created, hrows, hlast⟩, hdead, hnext, hshown⟩
  · have hnew : (x.store.write x.db e).2.2.rows.drop x.db.rows.length = [] := by
      rw [hkeeps.rows, List.drop_length]
    rw [Desk.write, hnew, List.append_nil]
    exact h.keeps hs hkeeps (List.Subset.refl _)
  · -- a row with a new identifier is seen
    have hnew : (x.store.write x.db e).2.2.rows.drop x.db.rows.length =
        [⟨x.db.nextId history x.db.lastId, created, e.toJson.text⟩] := by
      rw [hrows, List.drop_left]
    have hfresh := h.fresh history x.db.lastId
    rw [Desk.write, hnew]
    constructor
    · exact hs.limit.trans h.limit
    · exact hshown.trans h.shown
    · rw [List.map_append, List.nodup_append]
      refine ⟨h.nodup, List.nodup_singleton _, ?_⟩
      intro i hi j hj
      obtain ⟨r, hr, rfl⟩ := List.mem_map.mp hi
      rw [List.mem_singleton.mp hj]
      exact Int.ne_of_lt (Int.lt_of_le_of_lt (h.given r hr) hfresh)
    · intro r hr
      rw [hlast]
      rcases List.mem_append.mp hr with hold | hnew
      · exact Int.le_trans (h.given r hold) (Int.le_max_left _ _)
      · obtain rfl := List.mem_singleton.mp hnew
        exact Int.le_max_right _ _
    · rw [hnext]
      exact h.fresh
    · obtain ⟨moved, letters, hplaces⟩ := h.placed
      exact ⟨moved, letters, hplaces.adds hrows hdead _⟩
    · intro b hb
      obtain ⟨ids, hof⟩ := h.loans b hb
      exact ⟨ids, hof.mono (List.subset_append_left _ _)⟩
    · have hlimit := h.limit
      rw [hrows, List.length_append, List.length_singleton]
      exact Nat.le_trans (hlimit ▸ hroom) (Nat.le_max_right _ _)

/-- A reading places rows with those that were moved, and brings a batch of rows that were seen. -/
theorem read (h : Sound s db x) : Sound s db x.read := by
  obtain ⟨moved, letters, hplaces⟩ := h.placed
  obtain ⟨hs, ⟨moved', letters', haside⟩, hbatch⟩ :=
    TableStore.readPages_spec h.nodup_rows x.store [] (x.db.rows.length + 1)
  constructor
  · exact hs.limit.trans h.limit
  · exact haside.shown.trans h.shown
  · exact h.nodup
  · intro r hr
    rw [Desk.read, TableStore.nextBatch, haside.lastId]
    exact h.given r hr
  · rw [Desk.read, TableStore.nextBatch, haside.nextId]
    exact h.fresh
  · exact ⟨_, _, hplaces.setsAside haside _ _⟩
  · intro b hb
    rw [Desk.read] at hb
    dsimp only at hb
    split at hb
    · rename_i b' hb'
      rcases List.mem_append.mp hb with hold | hnew
      · exact h.loans b hold
      · rw [List.mem_singleton.mp hnew]
        obtain ⟨ids, hof⟩ := hbatch b' hb'
        exact ⟨ids, hof.mono hplaces.subset⟩
    · exact h.loans b hb
  · have hlength := haside.rows.length_eq
    rw [List.length_append] at hlength
    exact Nat.le_trans (Nat.le_of_add_right_le (Nat.le_of_eq hlength.symm)) h.bounded

theorem commit (h : Sound s db x) (b : Batch) : Sound s db (x.commit b) := by
  have hloans : x.loans.erase b ⊆ x.loans := List.erase_subset
  unfold Desk.commit
  split
  · rename_i ids hids
    obtain ⟨hs, ⟨f, hanswer, hkeeps⟩ | ⟨hanswer, hdeletes⟩⟩ := x.store.commit_cases x.db ids
    · rw [hanswer]
      exact h.keeps hs hkeeps hloans
    · rw [hanswer]
      obtain ⟨moved, letters, hplaces⟩ := h.placed
      constructor
      · exact hs.limit.trans h.limit
      · exact hdeletes.shown.trans h.shown
      · exact h.nodup
      · intro r hr
        rw [hdeletes.lastId]
        exact h.given r hr
      · rw [hdeletes.nextId]
        exact h.fresh
      · exact ⟨_, _, hplaces.deletes hdeletes _ _⟩
      · exact fun b' hb' => h.loans b' (hloans hb')
      · rw [hdeletes.rows]
        exact Nat.le_trans (List.length_filter_le _ _) h.bounded
  · exact h.keeps (.refl _) (.refl _) hloans

theorem step (h : Sound s db x) (hs : Step x y) : Sound s db y := by
  cases hs with
  | write e => exact h.write e
  | read => exact h.read
  | commit b hb => exact h.commit b
  | giveUp b hb => exact h.keeps (.refl _) (.refl _) List.erase_subset
  | refresh =>
    obtain ⟨hfollows, hkeeps⟩ := x.store.refreshGauges_keeps h.shown
    exact h.keeps hfollows hkeeps (List.Subset.refl _)

theorem reaches (h : Sound s db x) (hr : Reaches x y) : Sound s db y := by
  induction hr with
  | refl => exact h
  | tail _ hs ih => exact ih.step hs

end Sound

/-- A row that is no event leaves by being moved, and one that is by the commit of its batch. -/
theorem Sound.leaves (h : Sound s db x) (hs : Step x y) {r : Row} (hr : r ∈ x.db.rows)
    (hgone : r ∉ y.db.rows) :
    (r.event? = none ∧ y = x.read ∧ ∃ letters, y.db.dead = x.db.dead ++ letters ∧
      r.contents ∈ letters.map DeadRow.contents) ∨
    ∃ e, r.event? = some e ∧ ∃ b ∈ x.loans, ∃ ids, b.token = .rows ids ∧
      (r.id, e) ∈ ids.zip b.events ∧ (x.store.commit x.db ids).1 = .ok () ∧ y = x.commit b := by
  have hstays : ∀ {db' : Database}, Keeps x.db db' → r ∈ db'.rows := by
    intro db' hkeeps
    rw [hkeeps.rows]
    exact hr
  cases hs with
  | write e =>
    obtain ⟨-, ⟨f, -, hkeeps⟩ | ⟨-, -, ⟨history, created, hrows, -⟩, -⟩⟩ :=
      x.store.write_cases h.shown e
    · exact absurd (hstays hkeeps) hgone
    · rw [Desk.write, hrows] at hgone
      exact absurd (List.mem_append_left _ hr) hgone
  | read =>
    obtain ⟨-, ⟨moved, letters, haside⟩, -⟩ :=
      TableStore.readPages_spec h.nodup_rows x.store [] (x.db.rows.length + 1)
    have hmoved := haside.mem_of_gone hr hgone
    refine .inl ⟨haside.unreadable r hmoved, rfl, letters, haside.dead, ?_⟩
    rw [haside.contents]
    exact List.mem_map_of_mem hmoved
  | commit b hb =>
    obtain ⟨ids, hof⟩ := h.loans b hb
    obtain ⟨moved, letters, hplaces⟩ := h.placed
    have hdb : (x.commit b).db = (x.store.commit x.db ids).2.2 := by
      rw [Desk.commit, hof.1]
    rw [hdb] at hgone
    obtain ⟨-, ⟨f, -, hkeeps⟩ | ⟨hanswer, hdeletes⟩⟩ := x.store.commit_cases x.db ids
    · exact absurd (hstays hkeeps) hgone
    · -- what the batch says of the identifier is about this very row
      have hid : r.id ∈ ids := by
        by_contra hid
        rw [hdeletes.rows] at hgone
        exact hgone (List.mem_filter.mpr ⟨hr, decide_eq_true hid⟩)
      obtain ⟨e, hzip, r', hr', hsame, he⟩ := hof.exists_event hid
      obtain rfl := List.inj_on_of_nodup_map h.nodup hr' (hplaces.subset hr) hsame
      exact .inr ⟨e, he, b, hb, ids, hof.1, hzip, hanswer, rfl⟩
  | giveUp b hb => exact absurd hr hgone
  | refresh => exact absurd (hstays (x.store.refreshGauges_keeps h.shown).2) hgone

/-- The rows of a batch are events. -/
theorem Sound.readable (h : Sound s db x) {b : Batch} {ids : List Int} (hof : b.IsOf x.seen ids)
    {r : Row} (hr : r ∈ x.seen) (hid : r.id ∈ ids) : r.event? ≠ none := by
  obtain ⟨e, -, r', hr', hsame, he⟩ := hof.exists_event hid
  obtain rfl := List.inj_on_of_nodup_map h.nodup hr' hr hsame
  rw [he]
  exact Option.some_ne_none e

end Desk

namespace Desk

/-- A table with a row that is no event and one that is. Its identifiers have gaps, and its clock
stands still. -/
def mixed : Database where
  rows := [⟨1, 1, "7"⟩, ⟨2, 2, "\x7b\"id\":\"a\"\x7d"⟩]
  dead := []
  lastId := 2
  lastCreated := 2
  history := []
  refuse _ _ := none
  nextId _ id := id + 5
  clock _ _ := 0
  shownCount := none
  closed := false

def reader : TableStore := ⟨"t", 2, 3, .zero false⟩

/-- The rows as they are selected. -/
def mixedPage : List (Int × Json) :=
  [(1, .number (.int 7)), (2, .object [("id", .string "a")])]

/-- The same rows once they have been separated. -/
def sorted : TableStore.Sorted × TableStore × Database :=
  reader.sort (mixed.after "t" (.select 2 [])) mixedPage

/-- The row that is no event has been moved, and a reader holds the other one. -/
def readOnce : Desk where
  store := { sorted.2.1 with counters := sorted.2.1.counters.countReads 1 }
  db := sorted.2.2
  seen := mixed.rows
  committed := []
  loans := [⟨[.new "a"], .rows [2]⟩]

/-- The batch is committed, and another event is written. -/
def emptied : Desk :=
  (readOnce.commit ⟨[.new "a"], .rows [2]⟩).write (.new "b")

end Desk

end AuditRelay
