import AuditRelay.Store.Table
import Mathlib.Data.List.Perm.Subperm

/-!
# AuditRelay.Proofs.Store.Rows — a table store whose statements are all executed

On a database that refuses nothing (`Database.IsWilling`) every operation of a table store leaves
such a database and keeps the limits of the store (`TableStore.Follows`). A reading that finds
nothing leaves no row behind (`nextBatch_read`): a page without events is moved away whole, so the
next page is another one, and the rows become fewer with each page.
-/

namespace AuditRelay

/-- The database refuses no statement and shows the true number of rows. -/
structure Database.IsWilling (db : Database) : Prop where
  refuse : ∀ history st, db.refuse history st = none
  shown : db.shownCount = none
  isOpen : db.closed = false

namespace Database

variable {db : Database}

/-- Nothing of this depends on the rows or on what has been executed. -/
theorem IsWilling.withRows (h : db.IsWilling) (rows : List Row) (dead : List DeadRow)
    (lastId lastCreated : Int) (history : List Executed) :
    IsWilling { db with rows, dead, lastId, lastCreated, history } :=
  ⟨h.refuse, h.shown, h.isOpen⟩

/-- The database once it has received a statement. -/
def after (db : Database) (table : String) (st : Statement) : Database :=
  { db with history := ⟨table, st⟩ :: db.history }

theorem IsWilling.after (h : db.IsWilling) (table : String) (st : Statement) :
    (db.after table st).IsWilling :=
  h.withRows _ _ _ _ _

/-- No statement is refused. -/
theorem IsWilling.perform {α : Type} (h : db.IsWilling) (table : String) (st : Statement)
    (act : Database → Except DatabaseFault α × Database) :
    db.perform table st act = act (db.after table st) := by
  have hreceive : db.receive table st = (none, db.after table st) := by
    unfold Database.receive
    rw [if_neg (by rw [h.isOpen]; exact Bool.false_ne_true), h.refuse]
    rfl
  rw [Database.perform, hreceive]

theorem IsWilling.count (h : db.IsWilling) (table : String) :
    db.count table = (.ok db.rows.length, db.after table .count) := by
  have hshown : (db.after table .count).shownCount = none := h.shown
  rw [Database.count, h.perform, hshown]
  rfl

/-! ## Pages -/

/-- What is selected of a page with a first row. -/
theorem decode_cons {r : Row} {rs : List Row} {vs : List (Int × Json)} (h : decode (r :: rs) = .ok vs) :
    ∃ v vs', Json.ofText r.data = .ok v ∧ decode rs = .ok vs' ∧ vs = (r.id, v) :: vs' := by
  rw [decode] at h
  cases hv : Json.ofText r.data with
  | error f =>
    rw [hv] at h
    cases h
  | ok v =>
    rw [hv] at h
    cases hvs : decode rs with
    | error f =>
      simp only [hvs] at h
      cases h
    | ok vs' =>
      simp only [hvs] at h
      exact ⟨v, vs', rfl, rfl, (Except.ok.inj h).symm⟩

theorem map_fst_decode {rs : List Row} {vs : List (Int × Json)} (h : decode rs = .ok vs) :
    vs.map Prod.fst = rs.map Row.id := by
  induction rs generalizing vs with
  | nil =>
    rw [← Except.ok.inj h]
    rfl
  | cons r rs ih =>
    obtain ⟨v, vs, -, hvs, rfl⟩ := decode_cons h
    rw [List.map_cons, List.map_cons, ih hvs]

/-- The rows of a page are rows of the table. -/
theorem page_subperm (db : Database) (limit : Nat) (skipped : List Int) :
    ((db.page limit skipped).map Row.id).Subperm (db.rows.map Row.id) := by
  have hsub : (db.page limit skipped).Sublist db.ordered :=
    (List.take_sublist _ _).trans List.filter_sublist
  have hperm : db.ordered.Perm db.rows := List.mergeSort_perm _ _
  exact (hsub.map Row.id).subperm.trans (hperm.map Row.id).subperm

/-- An empty page means an empty table, when nothing is skipped. -/
theorem rows_of_page_eq_nil {limit : Nat} (hl : 0 < limit) (h : db.page limit [] = []) :
    db.rows = [] := by
  have hall : db.ordered.filter (fun r => r.id ∉ ([] : List Int)) = db.ordered := by
    rw [List.filter_eq_self]
    intro r _
    simp
  rw [page, hall, List.take_eq_nil_iff] at h
  have hnil : db.ordered = [] := h.resolve_left (Nat.pos_iff_ne_zero.mp hl)
  have hperm : db.ordered.Perm db.rows := List.mergeSort_perm _ _
  rw [hnil] at hperm
  exact hperm.symm.eq_nil

theorem map_id_eraseP (id : Int) (rs : List Row) :
    (rs.eraseP (·.id = id)).map Row.id = (rs.map Row.id).erase id := by
  induction rs with
  | nil => rfl
  | cons r rs ih =>
    by_cases hid : r.id = id
    · rw [List.eraseP_cons_of_pos (by simp [hid]), List.map_cons, hid, List.erase_cons_head]
    · rw [List.eraseP_cons_of_neg (by simp [hid]), List.map_cons, List.map_cons, ih,
        List.erase_cons_tail (by simp [hid])]

/-- A row that is there is moved away. -/
theorem IsWilling.move (h : db.IsWilling) (table : String) {id : Int} (error : String)
    (hid : id ∈ db.rows.map Row.id) :
    ∃ db', db.move table id error = (.ok (), db') ∧ db'.IsWilling ∧
      db'.rows.map Row.id = (db.rows.map Row.id).erase id := by
  rw [Database.move, h.perform]
  cases hf : (db.after table (.move id error)).rows.find? (·.id = id) with
  | none =>
    obtain ⟨r, hr, hrid⟩ := List.mem_map.mp hid
    have hno := List.find?_eq_none.mp hf r hr
    exact absurd (decide_eq_true hrid) hno
  | some r =>
    refine ⟨_, rfl, h.withRows _ _ _ _ _, ?_⟩
    exact map_id_eraseP id db.rows

end Database

namespace TableStore

/-- What a table store keeps in all its operations. -/
structure Follows (s s' : TableStore) : Prop where
  pageSize : s'.pageSize = s.pageSize
  limit : s'.limit = s.limit

theorem Follows.refl (s : TableStore) : Follows s s := ⟨rfl, rfl⟩

theorem Follows.trans {s₁ s₂ s₃ : TableStore} (h : Follows s₁ s₂) (h' : Follows s₂ s₃) :
    Follows s₁ s₃ :=
  ⟨h'.pageSize.trans h.pageSize, h'.limit.trans h.limit⟩

variable {s : TableStore} {db : Database}

/-- A write finds the table full only if it has as many rows as allowed. -/
theorem write_written (h : db.IsWilling) (e : Event) :
    Follows s (s.write db e).2.1 ∧ (s.write db e).2.2.IsWilling ∧
    ∀ f, (s.write db e).1 = .error f → s.limit ≤ db.rows.length := by
  have hcount : s.rowCount db = (.ok db.rows.length, db.after s.tableName .count) := by
    rw [rowCount, h.count]
    rfl
  have h' : (db.after s.tableName .count).IsWilling := h.after _ _
  unfold write
  rw [hcount]
  by_cases hfull : s.limit ≤ db.rows.length
  · simp only [if_pos hfull]
    exact ⟨⟨rfl, rfl⟩, h', fun _ _ => hfull⟩
  · simp only [if_neg hfull, Database.insert, h'.perform]
    exact ⟨⟨rfl, rfl⟩, (h'.after _ _).withRows _ _ _ _ _, fun f hf => by cases hf⟩

theorem commit_committed (h : db.IsWilling) (ids : List Int) :
    Follows s (s.commit db ids).2.1 ∧ (s.commit db ids).2.2.IsWilling := by
  unfold commit
  simp only [Database.delete, h.perform]
  exact ⟨.refl s, (h.after _ _).withRows _ _ _ _ _⟩

theorem refreshGauges_refreshed (h : db.IsWilling) :
    Follows s (s.refreshGauges db).2.1 ∧ (s.refreshGauges db).2.2.IsWilling ∧
    (s.refreshGauges db).2.2.rows = db.rows := by
  unfold refreshGauges
  rw [rowCount, h.count]
  exact ⟨⟨rfl, rfl⟩, h.after _ _, rfl⟩

/-! ## Reading -/

/-- Nothing of a page is stuck. Every row of it that is no event is moved away, so a page without
events leaves as many rows fewer. -/
theorem sort_sorted {vs : List (Int × Json)} (h : db.IsWilling)
    (hvs : (vs.map Prod.fst).Subperm (db.rows.map Row.id)) :
    ∃ r s' db', s.sort db vs = (r, s', db') ∧ Follows s s' ∧ db'.IsWilling ∧ r.stuck = [] ∧
      (r.events = [] → db'.rows.length + vs.length = db.rows.length) := by
  induction vs generalizing s db with
  | nil => exact ⟨_, s, db, rfl, .refl s, h, rfl, fun _ => rfl⟩
  | cons v vs ih =>
    obtain ⟨id, v⟩ := v
    cases hv : Event.ofJson v with
    | ok e =>
      have hrest : (vs.map Prod.fst).Subperm (db.rows.map Row.id) :=
        (List.sublist_cons_self _ _).subperm.trans hvs
      obtain ⟨r, s', db', hsort, hs, hdb, hstuck, -⟩ := ih (s := s) h hrest
      refine ⟨⟨e :: r.events, id :: r.ids, r.stuck⟩, s', db', ?_, hs, hdb, hstuck, ?_⟩
      · simp only [sort, hv, hsort]
      · intro hnil
        cases hnil
    | error f =>
      have hid : id ∈ db.rows.map Row.id := hvs.subset (List.mem_cons_self)
      obtain ⟨db₁, hmove, h₁, hrows⟩ := h.move s.tableName (Event.refusal f) hid
      have hrest : (vs.map Prod.fst).Subperm (db₁.rows.map Row.id) := by
        rw [hrows]
        have herase := hvs.erase id
        rwa [List.map_cons, List.erase_cons_head] at herase
      obtain ⟨r, s', db', hsort, hs, hdb, hstuck, hlen⟩ :=
        ih (s := (s.countError .readUnmarshal).countError .deadLetterWrite) h₁ hrest
      refine ⟨r, s', db', ?_, ⟨hs.pageSize, hs.limit⟩, hdb, hstuck, fun hnil => ?_⟩
      · have hname : (s.countError .readUnmarshal).tableName = s.tableName := rfl
        simp only [sort, hv, hname, hmove, hsort]
      · -- one row is gone
        have hpos : 0 < db.rows.length := by
          have hlen := List.length_pos_of_mem hid
          rwa [List.length_map] at hlen
        have hone : db₁.rows.length = db.rows.length - 1 := by
          have hlen := congrArg List.length hrows
          rwa [List.length_map, List.length_erase_of_mem hid, List.length_map] at hlen
        have hlen := hlen hnil
        rw [List.length_cons]
        omega

theorem readPages_read (h : db.IsWilling) (hp : 0 < s.pageSize) {fuel : Nat}
    (hfuel : db.rows.length < fuel) :
    ∃ r s' db', s.readPages db [] fuel = (r, s', db') ∧ Follows s s' ∧ db'.IsWilling ∧
      (r = .ok none → db'.rows = []) := by
  induction fuel generalizing s db with
  | zero => exact absurd hfuel (Nat.not_lt_zero _)
  | succ fuel ih =>
    have h' := h.after s.tableName (.select s.pageSize [])
    have hselect : db.select s.tableName s.pageSize [] =
        (Database.decode (db.page s.pageSize []), db.after s.tableName (.select s.pageSize [])) := by
      rw [Database.select, h.perform]
      rfl
    unfold readPages
    rw [hselect]
    cases hd : Database.decode (db.page s.pageSize []) with
    | error f =>
      exact ⟨_, _, _, rfl, ⟨rfl, rfl⟩, h', fun hr => by cases hr⟩
    | ok vs =>
      have hids := Database.map_fst_decode hd
      cases vs with
      | nil =>
        refine ⟨_, _, _, rfl, .refl s, h', fun _ => ?_⟩
        refine Database.rows_of_page_eq_nil hp ?_
        exact List.map_eq_nil_iff.mp hids.symm
      | cons v vs =>
        have hsub : ((v :: vs).map Prod.fst).Subperm (db.rows.map Row.id) := by
          rw [hids]
          exact db.page_subperm s.pageSize []
        obtain ⟨r, s₁, db₁, hsort, hs₁, hdb₁, hstuck, hlen⟩ := sort_sorted (s := s) h' hsub
        obtain ⟨events, ids, stuck⟩ := r
        simp only at hstuck hlen
        subst hstuck
        simp only [hsort]
        cases events with
        | nil =>
          -- the page is gone, and there are fewer rows
          have hfewer : db₁.rows.length < fuel := by
            have hlen : db₁.rows.length + (v :: vs).length = db.rows.length := hlen rfl
            rw [List.length_cons] at hlen
            omega
          obtain ⟨r, s', db', hread, hs, hdb, hnone⟩ :=
            ih (s := s₁) hdb₁ (hs₁.pageSize ▸ hp) hfewer
          exact ⟨r, s', db', hread, hs₁.trans hs, hdb, hnone⟩
        | cons e es =>
          exact ⟨_, _, _, rfl, hs₁.trans ⟨rfl, rfl⟩, hdb₁, fun hr => by cases hr⟩

/-- A reading that finds nothing leaves no row. -/
theorem nextBatch_read (h : db.IsWilling) (hp : 0 < s.pageSize) :
    ∃ r s' db', s.nextBatch db = (r, s', db') ∧ Follows s s' ∧ db'.IsWilling ∧
      (r = .ok none → db'.rows = []) :=
  readPages_read h hp (Nat.lt_succ_self _)

/-- An empty table brings no batch. -/
theorem nextBatch_of_no_rows (h : db.IsWilling) (hrows : db.rows = []) :
    (s.nextBatch db).1 = .ok none := by
  have hpage : db.page s.pageSize [] = [] := by
    rw [Database.page, Database.ordered, hrows, List.mergeSort_nil, List.filter_nil, List.take_nil]
  have hselect : db.select s.tableName s.pageSize [] =
      (.ok [], db.after s.tableName (.select s.pageSize [])) := by
    rw [Database.select, h.perform]
    show (Database.decode (db.page s.pageSize []), _) = _
    rw [hpage]
    rfl
  rw [nextBatch, hrows]
  unfold readPages
  rw [hselect]

/-! ## Opening -/

theorem migrate_willing (h : db.IsWilling) (table : String) (sts : List Statement) :
    (migrate table db sts).2.IsWilling ∧ (migrate table db sts).1 = .ok () := by
  induction sts generalizing db with
  | nil => exact ⟨h, rfl⟩
  | cons st sts ih =>
    unfold migrate
    rw [Database.create, h.perform]
    exact ih (h.after table st)

/-- An opened store has room for a row and reads more than none at a time. -/
theorem create_opened (h : db.IsWilling) (p : TableParameters) (r : Registry) {s : TableStore}
    (hs : (create p r db).1 = .ok s) :
    (create p r db).2.2.IsWilling ∧ 0 < s.limit ∧ 0 < s.pageSize := by
  unfold create at hs ⊢
  simp only at hs ⊢
  split at hs
  · cases hs
  · rename_i hname
    split at hs
    · cases hs
    · rename_i hpage
      split at hs
      · cases hs
      · rename_i hlimit
        rw [if_neg hname, if_neg hpage, if_neg hlimit]
        generalize (if p.skipMigration.getD false = true then [] else _) = steps at hs ⊢
        generalize (p.tableName.filter _).getD defaultName = table at hs ⊢
        obtain ⟨hdb, hok⟩ := migrate_willing h table steps
        rcases hm : migrate table db steps with ⟨answer, db₁⟩
        rw [hm] at hdb hok
        subst hok
        simp only [hm] at hs ⊢
        rcases hreg : StoreCounters.register r sizeDescription false with ⟨counters | counters, r₁⟩
        · simp only [hreg] at hs
          cases hs
        · simp only [hreg] at hs
          have hstore := Except.ok.inj hs
          subst hstore
          exact ⟨hdb, Nat.pos_iff_ne_zero.mpr hlimit, Nat.pos_iff_ne_zero.mpr hpage⟩

end TableStore

end AuditRelay
