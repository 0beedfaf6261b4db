import AuditRelay.Proofs.Store.Rows
import Mathlib.Data.List.Forall2
import Mathlib.Data.List.Nodup

/-!
# AuditRelay.Proofs.Store.Statements — a table store whose statements may be refused

The database executes each statement whole or refuses it, in any pattern (`Database.perform_cases`), and
gives new rows new identifiers. Each operation of a table store is reduced to what it does to the tables:

* it leaves them alone (`Database.Keeps`), puts a row behind the others (`Database.Adds`) or takes rows
  out (`Database.Deletes`);
* it moves rows away that are no events, as far as the moves are executed (`Database.SetsAside`). A whole
  reading does no more than that (`TableStore.readPages_spec`).

`Batch.IsOf` ties the identifiers of a batch to its events, through the rows that hold them.
-/

namespace AuditRelay

/-! ## Rows -/

/-- The event that a row holds, if it holds one. -/
def Row.event? (r : Row) : Option Event :=
  match Json.ofText r.data with
  | .error _ => none
  | .ok v =>
    match Event.ofJson v with
    | .error _ => none
    | .ok e => some e

/-- The row has the identifier and the value. -/
def Row.Shows (r : Row) (p : Int × Json) : Prop :=
  r.id = p.1 ∧ Json.ofText r.data = .ok p.2

theorem Row.Shows.event?_eq_none {r : Row} {id : Int} {v : Json} {f : JsonFault}
    (h : r.Shows (id, v)) (hv : Event.ofJson v = .error f) : r.event? = none := by
  simp only [event?, h.2, hv]

theorem Row.Shows.event?_eq_some {r : Row} {id : Int} {v : Json} {e : Event}
    (h : r.Shows (id, v)) (hv : Event.ofJson v = .ok e) : r.event? = some e := by
  simp only [event?, h.2, hv]

/-- What is kept of a row when it is moved. -/
def Row.contents (r : Row) : Int × String :=
  (r.id, r.data)

/-- The row that a dead letter is about. -/
def DeadRow.contents (d : DeadRow) : Int × String :=
  (d.source, d.data)

/-- The identifiers and the events of a batch are those of rows. -/
def Batch.IsOf (rows : List Row) (b : Batch) (ids : List Int) : Prop :=
  b.token = .rows ids ∧
    List.Forall₂ (fun id e => ∃ r ∈ rows, r.id = id ∧ r.event? = some e) ids b.events

theorem Batch.IsOf.mono {rows more : List Row} {b : Batch} {ids : List Int} (h : b.IsOf rows ids)
    (hsub : rows ⊆ more) : b.IsOf more ids :=
  ⟨h.1, h.2.imp fun _ _ ⟨r, hr, hid, he⟩ => ⟨r, hsub hr, hid, he⟩⟩

/-- Every identifier of a batch belongs to one of its events. -/
theorem Batch.IsOf.exists_event {rows : List Row} {b : Batch} {ids : List Int} (h : b.IsOf rows ids)
    {id : Int} (hid : id ∈ ids) :
    ∃ e, (id, e) ∈ ids.zip b.events ∧ ∃ r ∈ rows, r.id = id ∧ r.event? = some e := by
  obtain ⟨hlength, hpairs⟩ := List.forall₂_iff_zip.mp h.2
  obtain ⟨i, hi, rfl⟩ := List.getElem_of_mem hid
  have hzip : (ids[i], b.events[i]) ∈ ids.zip b.events := by
    rw [← List.getElem_zip (h := by rw [List.length_zip]; omega)]
    exact List.getElem_mem _
  exact ⟨_, hzip, hpairs hzip⟩

/-! ## Statements that may be refused -/

namespace Database

variable {db db₁ db₂ db' : Database} {moved moved' : List Row} {letters letters' : List DeadRow}

/-- No two rows have the same identifier, and none has one that is still to be given: what is given
is greater than all before. -/
structure HasFreshIds (db : Database) : Prop where
  nodup : (db.rows.map Row.id).Nodup
  given : ∀ r ∈ db.rows, r.id ≤ db.lastId
  fresh : ∀ history id, id < db.nextId history id

/-- The database executes the statement if it comes next. -/
def Executes (db : Database) (st : Statement) : Prop :=
  db.closed = false ∧ db.refuse db.history st = none

/-- What no statement has changed. -/
structure Keeps (db db' : Database) : Prop where
  rows : db'.rows = db.rows
  dead : db'.dead = db.dead
  lastId : db'.lastId = db.lastId
  nextId : db'.nextId = db.nextId
  shown : db'.shownCount = db.shownCount

theorem Keeps.refl (db : Database) : Keeps db db := ⟨rfl, rfl, rfl, rfl, rfl⟩

theorem Keeps.trans (h : Keeps db db₁) (h' : Keeps db₁ db₂) : Keeps db db₂ :=
  ⟨h'.rows.trans h.rows, h'.dead.trans h.dead, h'.lastId.trans h.lastId,
    h'.nextId.trans h.nextId, h'.shown.trans h.shown⟩

theorem keeps_after (db : Database) (table : String) (st : Statement) :
    Keeps db (db.after table st) :=
  ⟨rfl, rfl, rfl, rfl, rfl⟩

theorem perform_cases {α : Type} (db : Database) (table : String) (st : Statement)
    (act : Database → Except DatabaseFault α × Database) :
    (¬ db.Executes st ∧ ∃ f db', db.perform table st act = (.error f, db') ∧ Keeps db db') ∨
    (db.Executes st ∧ db.perform table st act = act (db.after table st)) := by
  unfold perform receive
  by_cases hclosed : db.closed = true
  · left
    rw [if_pos hclosed]
    refine ⟨fun h => ?_, .poolClosed, db, rfl, .refl db⟩
    rw [h.1] at hclosed
    cases hclosed
  · rw [if_neg hclosed]
    cases hrefuse : db.refuse db.history st with
    | some f =>
      left
      refine ⟨fun h => ?_, f, db.after table st, rfl, keeps_after db table st⟩
      cases hrefuse.symm.trans h.2
    | none => exact .inr ⟨⟨Bool.eq_false_iff.mpr hclosed, hrefuse⟩, rfl⟩

/-- A row with the next identifier is put behind the others. -/
structure Adds (db db' : Database) (data : String) : Prop where
  row : ∃ history created,
    db'.rows = db.rows ++ [⟨db.nextId history db.lastId, created, data⟩] ∧
    db'.lastId = max db.lastId (db.nextId history db.lastId)
  dead : db'.dead = db.dead
  nextId : db'.nextId = db.nextId
  shown : db'.shownCount = db.shownCount

theorem insert_cases (db : Database) (table data : String) :
    (∃ f db', db.insert table data = (.error f, db') ∧ Keeps db db') ∨
    ∃ db', db.insert table data = (.ok (), db') ∧ Adds db db' data := by
  rw [Database.insert]
  rcases db.perform_cases table (.insert data) _ with ⟨-, f, db', h, hkeeps⟩ | ⟨-, h⟩
  · rw [h]
    exact .inl ⟨f, db', rfl, hkeeps⟩
  · rw [h]
    exact .inr ⟨_, rfl, ⟨_, _, rfl, rfl⟩, rfl, rfl, rfl⟩

/-- The rows with these identifiers are taken out. -/
structure Deletes (db db' : Database) (ids : List Int) : Prop where
  rows : db'.rows = db.rows.filter fun r => r.id ∉ ids
  dead : db'.dead = db.dead
  lastId : db'.lastId = db.lastId
  nextId : db'.nextId = db.nextId
  shown : db'.shownCount = db.shownCount

theorem delete_cases (db : Database) (table : String) (ids : List Int) :
    (∃ f db', db.delete table ids = (.error f, db') ∧ Keeps db db') ∨
    ∃ db', db.delete table ids = (.ok (), db') ∧ Deletes db db' ids := by
  rw [delete]
  rcases db.perform_cases table (.delete ids) _ with ⟨-, f, db', h, hkeeps⟩ | ⟨-, h⟩
  · rw [h]
    exact .inl ⟨f, db', rfl, hkeeps⟩
  · rw [h]
    exact .inr ⟨_, rfl, rfl, rfl, rfl, rfl, rfl⟩

/-- The rows are those that are left and those that are gone. -/
theorem Deletes.perm {ids : List Int} (h : Deletes db db' ids) :
    db.rows.Perm (db'.rows ++ db.rows.filter (· ∉ db'.rows)) := by
  have hgone : db.rows.filter (· ∉ db'.rows) =
      db.rows.filter fun r => !decide (r.id ∉ ids) := by
    refine List.filter_congr fun r hr => ?_
    rw [h.rows]
    simp [hr]
  rw [hgone, h.rows]
  exact (List.filter_append_perm _ _).symm

/-- Rows are moved to the dead letters, none of which is an event. -/
structure SetsAside (db db' : Database) (moved : List Row) (letters : List DeadRow) : Prop where
  rows : db.rows.Perm (db'.rows ++ moved)
  dead : db'.dead = db.dead ++ letters
  contents : letters.map DeadRow.contents = moved.map Row.contents
  unreadable : ∀ r ∈ moved, r.event? = none
  lastId : db'.lastId = db.lastId
  nextId : db'.nextId = db.nextId
  shown : db'.shownCount = db.shownCount

namespace SetsAside

theorem of_keeps (h : Keeps db db') : SetsAside db db' [] [] where
  rows := by
    rw [h.rows, List.append_nil]
  dead := by
    rw [h.dead, List.append_nil]
  contents := rfl
  unreadable r hr := absurd hr List.not_mem_nil
  lastId := h.lastId
  nextId := h.nextId
  shown := h.shown

theorem trans (h : SetsAside db db₁ moved letters) (h' : SetsAside db₁ db₂ moved' letters') :
    SetsAside db db₂ (moved ++ moved') (letters ++ letters') where
  rows := by
    have hrows := h.rows.trans (h'.rows.append_right moved)
    rw [List.append_assoc] at hrows
    exact hrows.trans (List.perm_append_comm.append_left db₂.rows)
  dead := by
    rw [h'.dead, h.dead, List.append_assoc]
  contents := by
    rw [List.map_append, List.map_append, h.contents, h'.contents]
  unreadable r hr := (List.mem_append.mp hr).elim (h.unreadable r) (h'.unreadable r)
  lastId := h'.lastId.trans h.lastId
  nextId := h'.nextId.trans h.nextId
  shown := h'.shown.trans h.shown

theorem subset (h : SetsAside db db' moved letters) : db'.rows ⊆ db.rows := fun _ hr =>
  h.rows.mem_iff.mpr (List.mem_append_left moved hr)

theorem nodup (h : SetsAside db db' moved letters) (hnodup : (db.rows.map Row.id).Nodup) :
    (db'.rows.map Row.id).Nodup := by
  have hboth := (h.rows.map Row.id).nodup_iff.mp hnodup
  rw [List.map_append] at hboth
  exact (List.nodup_append.mp hboth).1

/-- What has left the table is among the dead letters. -/
theorem mem_of_gone (h : SetsAside db db' moved letters) {r : Row} (hr : r ∈ db.rows)
    (hgone : r ∉ db'.rows) : r ∈ moved :=
  (List.mem_append.mp (h.rows.mem_iff.mp hr)).resolve_left hgone

end SetsAside

/-- Taking out the row that is found leaves the others. -/
theorem perm_eraseP_of_find? {rows : List Row} {p : Row → Bool} {r : Row}
    (h : rows.find? p = some r) : rows.Perm (rows.eraseP p ++ [r]) := by
  obtain ⟨hp, before, behind, rfl, hbefore⟩ := List.find?_eq_some_iff_append.mp h
  have herase : (before ++ r :: behind).eraseP p = before ++ behind := by
    rw [List.eraseP_append_right _ (fun a ha => by simpa using hbefore a ha),
      List.eraseP_cons_of_pos hp]
  rw [herase, List.append_assoc]
  exact (List.perm_append_singleton r behind).symm.append_left before

/-- A row that is no event is moved, unless the move is refused. -/
theorem move_setsAside (table : String) {id : Int} (error : String)
    (hid : ∀ r ∈ db.rows, r.id = id → r.event? = none) :
    ∃ moved letters, SetsAside db (db.move table id error).2 moved letters := by
  rw [move]
  rcases db.perform_cases table (.move id error) _ with ⟨-, f, db', h, hkeeps⟩ | ⟨-, h⟩
  · rw [h]
    exact ⟨[], [], .of_keeps hkeeps⟩
  · rw [h]
    cases hf : (db.after table (.move id error)).rows.find? (·.id = id) with
    | none => exact ⟨[], [], .of_keeps (db.keeps_after table _)⟩
    | some r =>
      have hr : r ∈ db.rows := List.mem_of_find?_eq_some hf
      have hrid : r.id = id := by simpa using List.find?_some hf
      refine ⟨[r], [⟨r.id, r.data, error⟩], perm_eraseP_of_find? hf, rfl, rfl, ?_, rfl, rfl, rfl⟩
      intro r' hr'
      rw [List.mem_singleton.mp hr']
      exact hid r hr hrid

/-! ## Pages -/

theorem mem_of_mem_page {limit : Nat} {skipped : List Int} {r : Row}
    (h : r ∈ db.page limit skipped) : r ∈ db.rows :=
  (List.mergeSort_perm _ _).mem_iff.mp (List.mem_filter.mp (List.mem_of_mem_take h)).1

theorem exists_of_decode {rs : List Row} {vs : List (Int × Json)} (h : decode rs = .ok vs) :
    ∀ p ∈ vs, ∃ r ∈ rs, r.Shows p := by
  induction rs generalizing vs with
  | nil =>
    rw [← Except.ok.inj h]
    exact fun p hp => absurd hp List.not_mem_nil
  | cons r rs ih =>
    obtain ⟨v, vs, hv, hvs, rfl⟩ := decode_cons h
    intro p hp
    rcases List.mem_cons.mp hp with rfl | hp
    · exact ⟨r, List.mem_cons_self, rfl, hv⟩
    · obtain ⟨r', hr', hp⟩ := ih hvs p hp
      exact ⟨r', List.mem_cons_of_mem r hr', hp⟩

theorem select_cases (db : Database) (table : String) (limit : Nat) (skipped : List Int) :
    Keeps db (db.select table limit skipped).2 ∧
    ((∃ f, (db.select table limit skipped).1 = .error f) ∨
      (db.select table limit skipped).1 = decode (db.page limit skipped)) := by
  rw [select]
  rcases db.perform_cases table (.select limit skipped) _ with ⟨-, f, db', h, hkeeps⟩ | ⟨-, h⟩
  · rw [h]
    exact ⟨hkeeps, .inl ⟨f, rfl⟩⟩
  · rw [h]
    exact ⟨db.keeps_after table _, .inr rfl⟩

end Database

/-! ## Operations of the store -/

namespace TableStore

open Database

variable {s : TableStore} {db : Database} {rows : List Row}

/-- Only rows that are no events are moved away, and those that are make up the result. -/
theorem sort_spec (hnodup : (rows.map Row.id).Nodup) {vs : List (Int × Json)}
    (hvs : ∀ p ∈ vs, ∃ r ∈ rows, r.Shows p) (s : TableStore) {db : Database}
    (hsub : db.rows ⊆ rows) :
    Follows s (s.sort db vs).2.1 ∧
    (∃ moved letters, SetsAside db (s.sort db vs).2.2 moved letters) ∧
    List.Forall₂ (fun id e => ∃ r ∈ rows, r.id = id ∧ r.event? = some e)
      (s.sort db vs).1.ids (s.sort db vs).1.events := by
  induction vs generalizing s db with
  | nil => exact ⟨.refl s, ⟨[], [], .of_keeps (.refl db)⟩, .nil⟩
  | cons p vs ih =>
    obtain ⟨id, v⟩ := p
    obtain ⟨row, hrow, hshows⟩ := hvs (id, v) List.mem_cons_self
    have ih := @ih fun p hp => hvs p (List.mem_cons_of_mem _ hp)
    cases hv : Event.ofJson v with
    | ok e =>
      obtain ⟨hs, hdb, hresult⟩ := ih s hsub
      rcases hsort : s.sort db vs with ⟨r, s', db'⟩
      rw [hsort] at hs hdb hresult
      simp only [sort, hv, hsort]
      exact ⟨hs, hdb, .cons ⟨row, hrow, hshows.1, hshows.event?_eq_some hv⟩ hresult⟩
    | error f =>
      -- the row with this identifier is the one that shows the value
      have hunreadable : ∀ r ∈ db.rows, r.id = id → r.event? = none := by
        intro r hr hid
        have hsame : r = row :=
          List.inj_on_of_nodup_map hnodup (hsub hr) hrow (hid.trans hshows.1.symm)
        rw [hsame]
        exact hshows.event?_eq_none hv
      obtain ⟨moved, letters, hmoved⟩ :=
        move_setsAside s.tableName (Event.refusal f) hunreadable
      have hname : (s.countError .readUnmarshal).tableName = s.tableName := rfl
      -- the others are separated over what the move has left, executed or not
      have hrest := fun s₁ =>
        ih s₁ fun r (hr : r ∈ (db.move s.tableName id (Event.refusal f)).2.rows) =>
          hsub (hmoved.subset hr)
      rcases hmove : db.move s.tableName id (Event.refusal f) with ⟨g | u, db₁⟩
      · rw [hmove] at hmoved hrest
        obtain ⟨hs, ⟨moved', letters', hdb⟩, hresult⟩ :=
          hrest ((s.countError .readUnmarshal).countError .deadLetterWriteFailed)
        simp only [sort, hv, hname, hmove]
        exact ⟨⟨hs.pageSize, hs.limit⟩, ⟨_, _, hmoved.trans hdb⟩, hresult⟩
      · rw [hmove] at hmoved hrest
        obtain ⟨hs, ⟨moved', letters', hdb⟩, hresult⟩ :=
          hrest ((s.countError .readUnmarshal).countError .deadLetterWrite)
        simp only [sort, hv, hname, hmove]
        exact ⟨⟨hs.pageSize, hs.limit⟩, ⟨_, _, hmoved.trans hdb⟩, hresult⟩

/-- A reading moves rows away that are no events, and brings events of rows in the table. -/
theorem readPages_spec (hnodup : (db.rows.map Row.id).Nodup) (s : TableStore)
    (skipped : List Int) (fuel : Nat) :
    Follows s (s.readPages db skipped fuel).2.1 ∧
    (∃ moved letters, SetsAside db (s.readPages db skipped fuel).2.2 moved letters) ∧
    ∀ b, (s.readPages db skipped fuel).1 = .ok (some b) → ∃ ids, b.IsOf db.rows ids := by
  induction fuel generalizing s db skipped with
  | zero =>
    exact ⟨.refl s, ⟨[], [], .of_keeps (.refl db)⟩, fun b hb => by cases hb⟩
  | succ fuel ih =>
    obtain ⟨hkeeps, hanswer⟩ := db.select_cases s.tableName s.pageSize skipped
    unfold readPages
    rcases hselect : db.select s.tableName s.pageSize skipped with ⟨f | vs, db₁⟩
    · rw [hselect] at hkeeps
      exact ⟨⟨rfl, rfl⟩, ⟨[], [], .of_keeps hkeeps⟩, fun b hb => by cases hb⟩
    · rw [hselect] at hkeeps hanswer
      cases vs with
      | nil => exact ⟨.refl s, ⟨[], [], .of_keeps hkeeps⟩, fun b hb => by cases hb⟩
      | cons v vs =>
        have hpage : decode (db.page s.pageSize skipped) = .ok (v :: vs) := by
          rcases hanswer with ⟨f, hf⟩ | hanswer
          · cases hf
          · exact hanswer.symm
        have hshown : ∀ p ∈ v :: vs, ∃ r ∈ db.rows, r.Shows p := by
          intro p hp
          obtain ⟨r, hr, hshows⟩ := exists_of_decode hpage p hp
          exact ⟨r, mem_of_mem_page hr, hshows⟩
        have hsub : db₁.rows ⊆ db.rows := fun r hr => hkeeps.rows ▸ hr
        obtain ⟨hs, ⟨moved, letters, hsorted⟩, hresult⟩ := sort_spec hnodup hshown s hsub
        have hdb := (SetsAside.of_keeps hkeeps).trans hsorted
        rcases hsort : s.sort db₁ (v :: vs) with ⟨⟨events, ids, stuck⟩, s₁, db₂⟩
        rw [hsort] at hs hdb hresult
        simp only [hsort]
        cases events with
        | nil =>
          -- the next page is read from what is left
          obtain ⟨hs', ⟨moved', letters', hdb'⟩, hbatch⟩ :=
            ih (hdb.nodup hnodup) s₁ (skipped ++ stuck)
          refine ⟨hs.trans hs', ⟨_, _, hdb.trans hdb'⟩, fun b hb => ?_⟩
          obtain ⟨ids', hof⟩ := hbatch b hb
          exact ⟨ids', hof.mono hdb.subset⟩
        | cons e es =>
          refine ⟨hs.trans ⟨rfl, rfl⟩, ⟨_, _, hdb⟩, fun b hb => ?_⟩
          obtain rfl := Option.some.inj (Except.ok.inj hb)
          exact ⟨ids, rfl, hresult⟩

/-- The number of rows is shown, unless the count is refused. -/
theorem rowCount_cases (hshown : db.shownCount = none) (s : TableStore) :
    (¬ db.Executes .count ∧ ∃ f db', s.rowCount db = (.error (.database f), db') ∧ Keeps db db') ∨
    (db.Executes .count ∧ s.rowCount db = (.ok db.rows.length, db.after s.tableName .count)) := by
  rw [rowCount, count]
  rcases db.perform_cases s.tableName .count _ with ⟨hno, f, db', h, hkeeps⟩ | ⟨hyes, h⟩
  · rw [h]
    exact .inl ⟨hno, f, db', rfl, hkeeps⟩
  · have hnone : (db.after s.tableName .count).shownCount = none := hshown
    rw [h, hnone]
    exact .inr ⟨hyes, rfl⟩

/-- A write either puts a row behind the others or leaves the tables alone. -/
theorem write_cases (hshown : db.shownCount = none) (s : TableStore) (e : Event) :
    Follows s (s.write db e).2.1 ∧
    ((∃ f, (s.write db e).1 = .error f ∧ Keeps db (s.write db e).2.2) ∨
      ((s.write db e).1 = .ok () ∧ db.rows.length < s.limit ∧
        Adds db (s.write db e).2.2 e.toJson.text)) := by
  unfold write
  rcases s.rowCount_cases hshown with ⟨-, f, db', hcount, hkeeps⟩ | ⟨-, hcount⟩
  · rw [hcount]
    exact ⟨⟨rfl, rfl⟩, .inl ⟨_, rfl, hkeeps⟩⟩
  · rw [hcount]
    by_cases hfull : s.limit ≤ db.rows.length
    · simp only [if_pos hfull]
      exact ⟨⟨rfl, rfl⟩, .inl ⟨_, rfl, db.keeps_after _ _⟩⟩
    · simp only [if_neg hfull]
      rcases (db.after s.tableName .count).insert_cases s.tableName e.toJson.text
        with ⟨f, db', hinsert, hkeeps⟩ | ⟨db', hinsert, hadds⟩
      · rw [hinsert]
        exact ⟨⟨rfl, rfl⟩, .inl ⟨_, rfl, (db.keeps_after _ _).trans hkeeps⟩⟩
      · rw [hinsert]
        exact ⟨⟨rfl, rfl⟩, .inr ⟨rfl, Nat.lt_of_not_le hfull, hadds.row, hadds.dead,
          hadds.nextId, hadds.shown⟩⟩

/-- A commit either deletes the rows of its batch that are left or leaves the tables alone. -/
theorem commit_cases (s : TableStore) (db : Database) (ids : List Int) :
    Follows s (s.commit db ids).2.1 ∧
    ((∃ f, (s.commit db ids).1 = .error f ∧ Keeps db (s.commit db ids).2.2) ∨
      ((s.commit db ids).1 = .ok () ∧ Deletes db (s.commit db ids).2.2 ids)) := by
  unfold commit
  rcases db.delete_cases s.tableName ids with ⟨f, db', h, hkeeps⟩ | ⟨db', h, hdeletes⟩
  · rw [h]
    exact ⟨⟨rfl, rfl⟩, .inl ⟨_, rfl, hkeeps⟩⟩
  · rw [h]
    exact ⟨.refl s, .inr ⟨rfl, hdeletes⟩⟩

theorem refreshGauges_keeps (hshown : db.shownCount = none) (s : TableStore) :
    Follows s (s.refreshGauges db).2.1 ∧ Keeps db (s.refreshGauges db).2.2 := by
  unfold refreshGauges
  rcases s.rowCount_cases hshown with ⟨-, f, db', hcount, hkeeps⟩ | ⟨-, hcount⟩
  · rw [hcount]
    exact ⟨.refl s, hkeeps⟩
  · rw [hcount]
    exact ⟨⟨rfl, rfl⟩, db.keeps_after _ _⟩

end TableStore

end AuditRelay
