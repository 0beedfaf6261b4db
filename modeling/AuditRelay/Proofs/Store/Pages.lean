import AuditRelay.Proofs.Store.Statements
import Mathlib.Data.List.Infix

/-!
# AuditRelay.Proofs.Store.Pages — the pages of a reading

A reading of a table goes through pages of its rows. A row that is no event is moved away, or is passed
over from then on when the move is refused; either way the next page has the rows behind it. So the
pages are the pieces of the rows in order, one after the other, whatever the moves come to, and the
reading ends at the first piece with an event, or behind the last row
(`first_page_with_events_read`).

`Database.Tries` says what the tables are after any number of such moves, each of which is executed or
not. `TableStore.Pages` is the loop without a bound on its rounds; that it has a result is that it ends.
-/

namespace AuditRelay

/-! ## Rows in order -/

namespace Row

theorem le_total (a b : Row) : (a.le b || b.le a) = true := by
  simp only [Row.le, Bool.or_eq_true, Bool.and_eq_true, decide_eq_true_eq, beq_iff_eq]
  omega

theorem le_trans (a b c : Row) (hab : a.le b = true) (hbc : b.le c = true) : a.le c = true := by
  simp only [Row.le, Bool.or_eq_true, Bool.and_eq_true, decide_eq_true_eq, beq_iff_eq] at *
  omega

theorem id_eq_of_le {a b : Row} (hab : a.le b = true) (hba : b.le a = true) : a.id = b.id := by
  simp only [Row.le, Bool.or_eq_true, Bool.and_eq_true, decide_eq_true_eq, beq_iff_eq] at *
  omega

end Row

namespace Database

variable {db db₁ db₂ db' : Database} {rows rs : List Row} {r : Row}

theorem ordered_perm (db : Database) : db.ordered.Perm db.rows := List.mergeSort_perm _ _

/-- When rows are gone, the others are still in the same order. -/
theorem ordered_filter (hids : (db.rows.map Row.id).Nodup) {p : Row → Bool}
    (h : db'.rows = db.rows.filter p) : db'.ordered = db.ordered.filter p := by
  have hperm : db'.ordered.Perm (db.ordered.filter p) := by
    refine db'.ordered_perm.trans ?_
    rw [h]
    exact (db.ordered_perm.filter p).symm
  refine hperm.eq_of_pairwise ?_ (List.pairwise_mergeSort Row.le_trans Row.le_total _)
    ((List.pairwise_mergeSort Row.le_trans Row.le_total _).filter p)
  intro a b ha hb hab hba
  have ha := db'.ordered_perm.mem_iff.mp ha
  rw [h] at ha
  exact List.inj_on_of_nodup_map hids (List.mem_filter.mp ha).1
    (db.ordered_perm.mem_iff.mp (List.mem_filter.mp hb).1) (Row.id_eq_of_le hab hba)

/-! ## Moving rows away -/

/-- An attempt to move a row away. -/
structure Attempt where
  row : Row
  /-- What is kept with the row. -/
  error : String
  /-- What had been executed before. -/
  before : List Executed

namespace Attempt

def statement (a : Attempt) : Statement := .move a.row.id a.error

/-- The dead letter that is put behind the others, if the row is moved. -/
def letter (a : Attempt) : DeadRow := ⟨a.row.id, a.row.data, a.error⟩

/-- The row is a value that is no event, for the reason that is kept with it. -/
def IsFounded (a : Attempt) : Prop :=
  ∃ v f, Json.ofText a.row.data = .ok v ∧ Event.ofJson v = .error f ∧ a.error = Event.refusal f

end Attempt

/-- The database executes the move. -/
def moves (db : Database) (a : Attempt) : Bool := (db.refuse a.before a.statement).isNone

/-- These rows, and no others, have been tried to be moved away, each once and in this order. Those
whose moves were executed are among the dead letters, and the others are still in the table. -/
structure Tries (table : String) (db db' : Database) (tried : List Attempt) : Prop where
  rows : db'.rows = db.rows.filter fun r => r.id ∉ (tried.filter db.moves).map (·.row.id)
  dead : db'.dead = db.dead ++ (tried.filter db.moves).map Attempt.letter
  history : ∃ new, db'.history = new ++ db.history ∧
    (new.reverse.map Executed.statement).filter (·.kind = .move) = tried.map Attempt.statement
  before : ∀ a ∈ tried, (⟨table, a.statement⟩ :: a.before) <:+ db'.history
  refuse : db'.refuse = db.refuse
  isOpen : db'.closed = db.closed

variable {table : String} {tried tried' : List Attempt}

theorem Tries.refl (table : String) (db : Database) : Tries table db db [] := by
  refine ⟨?_, (List.append_nil _).symm, ⟨[], rfl, rfl⟩, ?_, rfl, rfl⟩
  · exact (List.filter_eq_self.mpr (by simp)).symm
  · exact fun a ha => absurd ha List.not_mem_nil

/-- A statement that moves nothing and is received. -/
theorem tries_after (db : Database) (table : String) (st : Statement) (hst : st.kind ≠ .move) :
    Tries table db (db.after table st) [] := by
  refine ⟨?_, (List.append_nil _).symm, ⟨[⟨table, st⟩], rfl, ?_⟩, ?_, rfl, rfl⟩
  · rw [List.filter_nil, List.map_nil]
    exact (List.filter_eq_self.mpr (by simp)).symm
  · simp [hst]
  · exact fun a ha => absurd ha List.not_mem_nil

theorem Tries.moves_eq (h : Tries table db db' tried) : db'.moves = db.moves := by
  funext a
  rw [moves, moves, h.refuse]

theorem Tries.trans (h : Tries table db db₁ tried) (h' : Tries table db₁ db₂ tried') :
    Tries table db db₂ (tried ++ tried') := by
  obtain ⟨new, hnew, hmoves⟩ := h.history
  obtain ⟨new', hnew', hmoves'⟩ := h'.history
  constructor
  · rw [h'.rows, h.rows, h.moves_eq, List.filter_filter]
    refine List.filter_congr fun r hr => ?_
    rw [List.filter_append, List.map_append]
    simp only [List.mem_append, not_or, Bool.decide_and]
    rw [Bool.and_comm]
  · rw [h'.dead, h.dead, h.moves_eq, List.filter_append, List.map_append, List.append_assoc]
  · refine ⟨new' ++ new, by rw [hnew', hnew, List.append_assoc], ?_⟩
    rw [List.reverse_append, List.map_append, List.filter_append, hmoves, hmoves', List.map_append]
  · intro a ha
    rcases List.mem_append.mp ha with ha | ha
    · exact (h.before a ha).trans ⟨new', hnew'.symm⟩
    · exact h'.before a ha
  · exact h'.refuse.trans h.refuse
  · exact h'.isOpen.trans h.isOpen

/-- A row that is moved is among the dead letters, and not in the table. -/
theorem Tries.gone (h : Tries table db db' tried) {a : Attempt} (ha : a ∈ tried)
    (hmoves : db.moves a = true) : a.letter ∈ db'.dead ∧ a.row ∉ db'.rows := by
  have hmoved : a ∈ tried.filter db.moves := List.mem_filter.mpr ⟨ha, hmoves⟩
  rw [h.dead, h.rows]
  refine ⟨List.mem_append_right _ (List.mem_map_of_mem hmoved), fun hrow => ?_⟩
  have hnot := of_decide_eq_true (List.mem_filter.mp hrow).2
  exact hnot (List.mem_map.mpr ⟨a, hmoved, rfl⟩)

/-- A row that is not moved is still in the table. -/
theorem Tries.stays (h : Tries table db db' tried) (hids : (db.rows.map Row.id).Nodup)
    (hrows : ∀ a ∈ tried, a.row ∈ db.rows) {r : Row} (hr : r ∈ db.rows)
    (hnot : ∀ a ∈ tried, db.moves a = true → a.row ≠ r) : r ∈ db'.rows := by
  rw [h.rows]
  refine List.mem_filter.mpr ⟨hr, decide_eq_true fun hmem => ?_⟩
  obtain ⟨a, ha, hid⟩ := List.mem_map.mp hmem
  obtain ⟨ha, hmoves⟩ := List.mem_filter.mp ha
  exact hnot a ha hmoves (List.inj_on_of_nodup_map hids (hrows a ha) hr hid)

/-- When only rows are tried that are no events, those that are events are as before. -/
theorem Tries.readable (h : Tries table db db' tried) (hids : (db.rows.map Row.id).Nodup)
    (hrows : ∀ a ∈ tried, a.row ∈ db.rows) (hnone : ∀ a ∈ tried, a.row.event? = none) :
    db'.rows.filter (·.event?.isSome) = db.rows.filter (·.event?.isSome) := by
  rw [h.rows, List.filter_filter]
  refine List.filter_congr fun r hr => ?_
  cases hsome : r.event?.isSome with
  | false => rfl
  | true =>
    have hstays := h.stays hids hrows hr fun a ha _ heq => by
      rw [← heq, hnone a ha] at hsome
      cases hsome
    rw [h.rows] at hstays
    rw [(List.mem_filter.mp hstays).2]
    rfl

theorem Tries.sublist (h : Tries table db db' tried) : db'.rows.Sublist db.rows := by
  rw [h.rows]
  exact List.filter_sublist

theorem Tries.nodup (h : Tries table db db' tried) (hids : (db.rows.map Row.id).Nodup) :
    (db'.rows.map Row.id).Nodup :=
  hids.sublist (h.sublist.map Row.id)

/-- The row with an identifier is the only one. -/
theorem find?_of_nodup (hids : (rows.map Row.id).Nodup) (hr : r ∈ rows) :
    rows.find? (·.id = r.id) = some r := by
  cases hf : rows.find? (·.id = r.id) with
  | none => exact absurd (decide_eq_true rfl) (List.find?_eq_none.mp hf r hr)
  | some r' =>
    have hid : r'.id = r.id := by simpa using List.find?_some hf
    rw [List.inj_on_of_nodup_map hids (List.mem_of_find?_eq_some hf) hr hid]

theorem eraseP_of_nodup (hids : (rows.map Row.id).Nodup) (id : Int) :
    rows.eraseP (·.id = id) = rows.filter (·.id ≠ id) := by
  induction rows with
  | nil => rfl
  | cons r rows ih =>
    obtain ⟨hnew, hids⟩ := List.nodup_cons.mp hids
    by_cases hid : r.id = id
    · -- no other row has it
      have hothers : rows.filter (·.id ≠ id) = rows := by
        rw [List.filter_eq_self]
        intro r' hr'
        rw [decide_eq_true_eq, ← hid]
        exact fun heq => hnew (heq ▸ List.mem_map_of_mem hr')
      rw [List.eraseP_cons_of_pos (by simp [hid]), List.filter_cons_of_neg (by simp [hid]), hothers]
    · rw [List.eraseP_cons_of_neg (by simp [hid]), List.filter_cons_of_pos (by simp [hid]), ih hids]

/-- What an executed move leaves. -/
def withDeadLetter (db : Database) (r : Row) (error : String) : Database :=
  { db with
    rows := db.rows.filter (·.id ≠ r.id)
    dead := db.dead ++ [⟨r.id, r.data, error⟩] }

theorem move_of_refuse (hopen : db.closed = false) (table : String) {id : Int} {error : String}
    {f : DatabaseFault} (h : db.refuse db.history (.move id error) = some f) :
    db.move table id error = (.error f, db.after table (.move id error)) := by
  rw [move, perform, receive, if_neg (by rw [hopen]; exact Bool.false_ne_true), h]
  rfl

theorem move_of_executes (hids : (db.rows.map Row.id).Nodup) (hr : r ∈ db.rows) (table : String)
    {error : String} (h : db.Executes (.move r.id error)) :
    db.move table r.id error =
      (.ok (), (db.after table (.move r.id error)).withDeadLetter r error) := by
  have hfind : db.rows.find? (·.id = r.id) = some r := find?_of_nodup hids hr
  rw [move, perform, receive, if_neg (by rw [h.1]; exact Bool.false_ne_true), h.2]
  simp only [hfind, withDeadLetter, after, eraseP_of_nodup hids]

/-- A row is moved, or the move is refused and the row stays. -/
theorem move_tries (table : String) (hopen : db.closed = false) (hids : (db.rows.map Row.id).Nodup)
    (hr : r ∈ db.rows) (error : String) :
    Tries table db (db.move table r.id error).2 [⟨r, error, db.history⟩] ∧
    (db.move table r.id error).1.isOk = db.moves ⟨r, error, db.history⟩ := by
  have hhistory : ∀ db' : Database, db'.history = ⟨table, .move r.id error⟩ :: db.history →
      (∃ new, db'.history = new ++ db.history ∧
        (new.reverse.map Executed.statement).filter (·.kind = .move) = [.move r.id error]) ∧
      ∀ a ∈ [(⟨r, error, db.history⟩ : Attempt)],
        (⟨table, a.statement⟩ :: a.before) <:+ db'.history := by
    intro db' h
    refine ⟨⟨[⟨table, .move r.id error⟩], h, rfl⟩, ?_⟩
    intro a ha
    rw [List.mem_singleton.mp ha, h]
    exact List.suffix_refl _
  have hmoves : db.moves ⟨r, error, db.history⟩ =
      (db.refuse db.history (.move r.id error)).isNone := rfl
  cases hrefuse : db.refuse db.history (.move r.id error) with
  | some f =>
    rw [hrefuse, Option.isNone_some] at hmoves
    rw [move_of_refuse hopen table hrefuse]
    obtain ⟨hnew, hbefore⟩ := hhistory (db.after table (.move r.id error)) rfl
    refine ⟨⟨?_, ?_, hnew, hbefore, rfl, rfl⟩, hmoves.symm⟩
    · rw [List.filter_cons_of_neg (by rw [hmoves]; exact Bool.false_ne_true), List.filter_nil,
        List.map_nil]
      exact (List.filter_eq_self.mpr (by simp)).symm
    · rw [List.filter_cons_of_neg (by rw [hmoves]; exact Bool.false_ne_true)]
      exact (List.append_nil _).symm
  | none =>
    rw [hrefuse, Option.isNone_none] at hmoves
    rw [move_of_executes hids hr table ⟨hopen, hrefuse⟩]
    obtain ⟨hnew, hbefore⟩ :=
      hhistory ((db.after table (.move r.id error)).withDeadLetter r error) rfl
    refine ⟨⟨?_, ?_, hnew, hbefore, rfl, rfl⟩, hmoves.symm⟩
    · rw [List.filter_cons_of_pos hmoves]
      simp [withDeadLetter, after]
    · rw [List.filter_cons_of_pos hmoves]
      rfl

/-! ## Pages -/

/-- Each row has an identifier of its own, and every select has an answer: none is refused, and each row
is a JSON text. -/
structure IsSelectable (db : Database) : Prop where
  nodup : (db.rows.map Row.id).Nodup
  isOpen : db.closed = false
  selects : ∀ history limit skipped, db.refuse history (.select limit skipped) = none
  json : ∀ r ∈ db.rows, ∃ v, Json.ofText r.data = .ok v

theorem IsSelectable.after (h : db.IsSelectable) (table : String) (st : Statement) :
    (db.after table st).IsSelectable :=
  ⟨h.nodup, h.isOpen, h.selects, h.json⟩

theorem IsSelectable.tries (h : db.IsSelectable) (ht : Tries table db db' tried) :
    db'.IsSelectable where
  nodup := ht.nodup h.nodup
  isOpen := ht.isOpen.trans h.isOpen
  selects := by
    rw [ht.refuse]
    exact h.selects
  json r hr := h.json r (ht.sublist.subset hr)

/-- Rows that are JSON texts are selected. -/
theorem decode_of_json (h : ∀ r ∈ rs, ∃ v, Json.ofText r.data = .ok v) :
    ∃ vs, decode rs = .ok vs := by
  induction rs with
  | nil => exact ⟨[], rfl⟩
  | cons r rs ih =>
    obtain ⟨v, hv⟩ := h r List.mem_cons_self
    obtain ⟨vs, hvs⟩ := ih fun r' hr' => h r' (List.mem_cons_of_mem r hr')
    exact ⟨(r.id, v) :: vs, by simp only [decode, hv, hvs]⟩

theorem IsSelectable.select (h : db.IsSelectable) (table : String) (limit : Nat)
    (skipped : List Int) :
    ∃ vs, db.select table limit skipped = (.ok vs, db.after table (.select limit skipped)) ∧
      decode (db.page limit skipped) = .ok vs := by
  obtain ⟨vs, hvs⟩ : ∃ vs, decode (db.page limit skipped) = .ok vs :=
    decode_of_json fun r hr => h.json r (mem_of_mem_page hr)
  refine ⟨vs, ?_, hvs⟩
  rw [Database.select, perform, receive, if_neg (by rw [h.isOpen]; exact Bool.false_ne_true),
    h.selects]
  show (decode (db.page limit skipped), _) = _
  rw [hvs]
  rfl

/-- Behind a page are the rows that are not on it. -/
theorem filter_take_eq_drop (hids : (rs.map Row.id).Nodup) (n : Nat) :
    rs.filter (fun r => r.id ∉ (rs.take n).map Row.id) = rs.drop n := by
  induction rs generalizing n with
  | nil => rw [List.drop_nil, List.filter_nil]
  | cons r rs ih =>
    obtain ⟨hnew, hids'⟩ := List.nodup_cons.mp hids
    cases n with
    | zero => simp
    | succ n =>
      rw [List.take_succ_cons, List.drop_succ_cons, List.map_cons,
        List.filter_cons_of_neg (by simp), ← ih hids' n]
      refine List.filter_congr fun r' hr' => ?_
      have hother : r'.id ≠ r.id := fun heq => hnew (heq ▸ List.mem_map_of_mem hr')
      simp [hother]

end Database

namespace TableStore

open Database

/-- Pages are read until a select is refused, a page is empty or one has an event; the rows that could
not be moved are passed over from then on. This is the loop without a bound on its rounds: it has a
result exactly if it ends. -/
inductive Pages : TableStore → Database → List Int →
    Except Fault (Option Batch) × TableStore × Database → Prop where
  | refused {s : TableStore} {db db₁ : Database} {skipped : List Int} {f : DatabaseFault}
      (hselect : db.select s.tableName s.pageSize skipped = (.error f, db₁)) :
      Pages s db skipped (.error (.database f), s.countError .readQuery, db₁)
  | empty {s : TableStore} {db db₁ : Database} {skipped : List Int}
      (hselect : db.select s.tableName s.pageSize skipped = (.ok [], db₁)) :
      Pages s db skipped (.ok none, s, db₁)
  | next {s s' : TableStore} {db db₁ db₂ : Database} {skipped ids stuck : List Int}
      {v : Int × Json} {vs : List (Int × Json)}
      {result : Except Fault (Option Batch) × TableStore × Database}
      (hselect : db.select s.tableName s.pageSize skipped = (.ok (v :: vs), db₁))
      (hsort : s.sort db₁ (v :: vs) = (⟨[], ids, stuck⟩, s', db₂))
      (hrest : Pages s' db₂ (skipped ++ stuck) result) :
      Pages s db skipped result
  | found {s s' : TableStore} {db db₁ db₂ : Database} {skipped ids stuck : List Int}
      {v : Int × Json} {vs : List (Int × Json)} {e : Event} {es : List Event}
      (hselect : db.select s.tableName s.pageSize skipped = (.ok (v :: vs), db₁))
      (hsort : s.sort db₁ (v :: vs) = (⟨e :: es, ids, stuck⟩, s', db₂)) :
      Pages s db skipped (.ok (some ⟨e :: es, .rows ids⟩),
        { s' with counters := s'.counters.countReads (e :: es).length }, db₂)

variable {s s' : TableStore} {db db₁ db₂ : Database} {rs : List Row} {skipped : List Int}

/-- A row that is no event is tried before the others, and is stuck if it is not moved. -/
theorem sort_of_error {v : Json} {f : JsonFault} (he : Event.ofJson v = .error f) (s : TableStore)
    (db : Database) (id : Int) (vs : List (Int × Json)) :
    ∃ s₁ : TableStore, s₁.tableName = s.tableName ∧ s₁.pageSize = s.pageSize ∧
      ∀ answer db₁, db.move s.tableName id (Event.refusal f) = (answer, db₁) →
        s.sort db ((id, v) :: vs) =
          (⟨(s₁.sort db₁ vs).1.events, (s₁.sort db₁ vs).1.ids,
            (if answer.isOk then [] else [id]) ++ (s₁.sort db₁ vs).1.stuck⟩, (s₁.sort db₁ vs).2) := by
  have hname : (s.countError .readUnmarshal).tableName = s.tableName := rfl
  rcases hmove : db.move s.tableName id (Event.refusal f) with ⟨g | u, db₁⟩
  · refine ⟨(s.countError .readUnmarshal).countError .deadLetterWriteFailed, rfl, rfl, ?_⟩
    rintro answer db' h
    obtain ⟨rfl, rfl⟩ := Prod.mk.inj h
    simp only [sort, he, hname, hmove]
    rfl
  · refine ⟨(s.countError .readUnmarshal).countError .deadLetterWrite, rfl, rfl, ?_⟩
    rintro answer db' h
    obtain ⟨rfl, rfl⟩ := Prod.mk.inj h
    simp only [sort, he, hname, hmove]
    rfl

/-- Each row of a page that is no event is tried, and those that are make up the result. -/
theorem sort_tries {vs : List (Int × Json)} (hdecode : decode rs = .ok vs) (s : TableStore)
    (hopen : db.closed = false) (hids : (db.rows.map Row.id).Nodup) (hpage : (rs.map Row.id).Nodup)
    (hsub : rs ⊆ db.rows) :
    ∃ tried, Tries s.tableName db (s.sort db vs).2.2 tried ∧
      tried.map Attempt.row = rs.filter (·.event?.isNone) ∧ (∀ a ∈ tried, a.IsFounded) ∧
      (s.sort db vs).1 = ⟨rs.filterMap Row.event?, (rs.filter (·.event?.isSome)).map Row.id,
        (tried.filter (!db.moves ·)).map (·.row.id)⟩ ∧
      (s.sort db vs).2.1.pageSize = s.pageSize ∧ (s.sort db vs).2.1.tableName = s.tableName := by
  induction rs generalizing vs s db with
  | nil =>
    rw [← Except.ok.inj hdecode]
    exact ⟨[], .refl s.tableName db, rfl, fun a ha => absurd ha List.not_mem_nil, rfl, rfl, rfl⟩
  | cons r rs ih =>
    obtain ⟨v, vs, hv, hvs, rfl⟩ := decode_cons hdecode
    obtain ⟨hnew, hpage⟩ := List.nodup_cons.mp hpage
    obtain ⟨hr, hsub⟩ := List.cons_subset.mp hsub
    have hshows : r.Shows (r.id, v) := ⟨rfl, hv⟩
    cases he : Event.ofJson v with
    | ok e =>
      have hevent := hshows.event?_eq_some he
      obtain ⟨tried, htries, hrows, hfounded, hresult, hsize, hname⟩ :=
        ih hvs s hopen hids hpage hsub
      rcases hsort : s.sort db vs with ⟨p, s', db'⟩
      rw [hsort] at htries hresult hsize hname
      simp only [sort, he, hsort]
      refine ⟨tried, htries, ?_, hfounded, ?_, hsize, hname⟩
      · rw [hrows, List.filter_cons_of_neg (by simp [hevent])]
      · rw [List.filterMap_cons_some hevent, List.filter_cons_of_pos (by simp [hevent])]
        rw [show p = _ from hresult]
        rfl
    | error f =>
      have hevent := hshows.event?_eq_none he
      obtain ⟨hmove, hmoved⟩ := move_tries s.tableName hopen hids hr (Event.refusal f)
      have hfirst : (⟨r, Event.refusal f, db.history⟩ : Attempt).IsFounded := ⟨v, f, hv, he, rfl⟩
      -- the other rows of the page are still there, whether or not this one is
      have hsub' : rs ⊆ (db.move s.tableName r.id (Event.refusal f)).2.rows := by
        intro r' hr'
        rw [hmove.rows]
        refine List.mem_filter.mpr ⟨hsub hr', decide_eq_true fun hmem => ?_⟩
        obtain ⟨a, ha, hid⟩ := List.mem_map.mp hmem
        rw [List.mem_singleton.mp (List.mem_filter.mp ha).1] at hid
        exact hnew (hid ▸ List.mem_map_of_mem hr')
      obtain ⟨s₁, hname, hsize, hsort⟩ := sort_of_error he s db r.id vs
      obtain ⟨tried, htries, hrows, hfounded, hresult, hsize', hname'⟩ :=
        ih hvs s₁ (hmove.isOpen.trans hopen) (hmove.nodup hids) hpage hsub'
      rw [hname] at htries
      rw [hsort (db.move s.tableName r.id (Event.refusal f)).1
        (db.move s.tableName r.id (Event.refusal f)).2 rfl]
      refine ⟨_, hmove.trans htries, ?_, ?_, ?_, hsize'.trans hsize, hname'.trans hname⟩
      · rw [List.map_append, hrows, List.filter_cons_of_pos (by simp [hevent])]
        rfl
      · exact List.forall_mem_cons.mpr ⟨hfirst, hfounded⟩
      · rw [hresult, hmoved, hmove.moves_eq, List.filterMap_cons_none hevent,
          List.filter_cons_of_neg (by simp [hevent]), List.singleton_append, List.filter_cons]
        cases db.moves ⟨r, Event.refusal f, db.history⟩ with
        | true => rfl
        | false => rfl

/-! ## What a reading finds -/

/-- What is found in rows that come in pages of this size: nothing if none is an event; else the events
of the first page that has one, with all pages before it passed. -/
inductive FirstPage (size : Nat) (left : List Row) : Option Batch → List Row → Prop where
  | nothing (h : ∀ r ∈ left, r.event? = none) : FirstPage size left none left
  | page (k : Nat) {passed : List Row} {b : Batch}
      (hbefore : ∀ r ∈ left.take (k * size), r.event? = none)
      (hpassed : passed = left.take ((k + 1) * size))
      (hevents : b.events = passed.filterMap Row.event?) (hsome : b.events ≠ [])
      (htoken : b.token = .rows ((passed.filter (·.event?.isSome)).map Row.id)) :
      FirstPage size left (some b) passed

namespace FirstPage

variable {size : Nat} {left passed : List Row} {found : Option Batch}

/-- A page without an event is passed. -/
theorem pass (hpage : ∀ r ∈ left.take size, r.event? = none)
    (h : FirstPage size (left.drop size) found passed) :
    FirstPage size left found (left.take size ++ passed) := by
  cases h with
  | nothing h =>
    rw [List.take_append_drop]
    refine .nothing fun r hr => ?_
    rw [← List.take_append_drop size left] at hr
    exact (List.mem_append.mp hr).elim (hpage r) (h r)
  | @page k passed b hbefore hpassed hevents hsome htoken =>
    have hnone : (left.take size).filterMap Row.event? = [] :=
      List.filterMap_eq_nil_iff.mpr hpage
    have hunread : (left.take size).filter (·.event?.isSome) = [] :=
      List.filter_eq_nil_iff.mpr fun r hr => by simp [hpage r hr]
    have htake : ∀ j, left.take ((j + 1) * size) =
        left.take size ++ (left.drop size).take (j * size) := by
      intro j
      rw [Nat.succ_mul, Nat.add_comm, List.take_add]
    refine .page (k + 1) ?_ ?_ ?_ hsome ?_
    · intro r hr
      rw [htake] at hr
      exact (List.mem_append.mp hr).elim (hpage r) (hbefore r)
    · rw [htake, hpassed]
    · rw [List.filterMap_append, hnone, List.nil_append, hevents]
    · rw [List.filter_append, hunread, List.nil_append, htoken]

/-- The first page has an event. -/
theorem first {b : Batch} (hevents : b.events = (left.take size).filterMap Row.event?)
    (hsome : b.events ≠ [])
    (htoken : b.token = .rows (((left.take size).filter (·.event?.isSome)).map Row.id)) :
    FirstPage size left (some b) (left.take size) := by
  refine .page 0 ?_ (by rw [Nat.zero_add, Nat.one_mul]) hevents hsome htoken
  rw [Nat.zero_mul, List.take_zero]
  exact fun r hr => absurd hr List.not_mem_nil

theorem passed_prefix (h : FirstPage size left found passed) : passed <+: left := by
  cases h with
  | nothing h => exact List.prefix_refl left
  | page k _ hpassed => exact hpassed ▸ List.take_prefix _ _

/-- Nothing is found exactly if no row is an event. -/
theorem found_eq_none_iff (h : FirstPage size left found passed) :
    found = none ↔ ∀ r ∈ left, r.event? = none := by
  cases h with
  | nothing h => exact ⟨fun _ => h, fun _ => rfl⟩
  | page k _ hpassed hevents hsome =>
    refine ⟨fun h => (nomatch h), fun h => absurd ?_ hsome⟩
    rw [hevents, hpassed, List.filterMap_eq_nil_iff]
    exact fun r hr => h r (List.mem_of_mem_take hr)

/-- The events that are found are the first ones, and are no more than fit on a page. -/
theorem oldest {b : Batch} (h : FirstPage size left (some b) passed) :
    b.events ≠ [] ∧ b.events.length ≤ size ∧ b.events <+: left.filterMap Row.event? := by
  have hprefix := h.passed_prefix
  cases h with
  | page k hbefore hpassed hevents hsome =>
    refine ⟨hsome, ?_, ?_⟩
    · -- the pages before bring none
      have hnone : (left.take (k * size)).filterMap Row.event? = [] :=
        List.filterMap_eq_nil_iff.mpr hbefore
      rw [hevents, hpassed, Nat.succ_mul, List.take_add, List.filterMap_append, hnone,
        List.nil_append]
      exact (List.length_filterMap_le _ _).trans (List.length_take_le _ _)
    · rw [hevents]
      exact hprefix.filterMap _

end FirstPage

theorem nodup_left {left : List Row} (hids : (db.rows.map Row.id).Nodup)
    (hleft : db.ordered.filter (fun r => r.id ∉ skipped) = left) : (left.map Row.id).Nodup := by
  rw [← hleft]
  exact ((db.ordered_perm.map Row.id).nodup_iff.mpr hids).sublist (List.filter_sublist.map Row.id)

theorem take_subset_of_left {left : List Row}
    (hleft : db.ordered.filter (fun r => r.id ∉ skipped) = left) (n : Nat) :
    left.take n ⊆ db.rows := by
  intro r hr
  rw [← hleft] at hr
  exact db.ordered_perm.mem_iff.mp (List.mem_filter.mp (List.mem_of_mem_take hr)).1

/-- When every row of a page has been tried, the rows that are left are those behind it: some of the
page are gone, and the others are passed over. -/
theorem left_of_tries {table : String} {left : List Row} {n : Nat} {tried : List Attempt}
    (hids : (db.rows.map Row.id).Nodup) (hleft : db.ordered.filter (fun r => r.id ∉ skipped) = left)
    (h : Tries table db db₁ tried) (htried : tried.map Attempt.row = left.take n) :
    db₁.ordered.filter (fun r => r.id ∉ skipped ++ (tried.filter (!db.moves ·)).map (·.row.id)) =
      left.drop n := by
  have hleftIds := nodup_left hids hleft
  rw [ordered_filter hids h.rows, List.filter_filter, ← filter_take_eq_drop hleftIds n, ← hleft,
    List.filter_filter]
  refine List.filter_congr fun r hr => ?_
  have hpage : ∀ id, id ∈ (left.take n).map Row.id ↔
      id ∈ (tried.filter db.moves).map (·.row.id) ∨
        id ∈ (tried.filter (!db.moves ·)).map (·.row.id) := by
    intro id
    rw [← htried, ← List.mem_append, ← List.map_append, List.map_map]
    exact ((List.filter_append_perm db.moves tried).map _).mem_iff.symm
  rw [hleft]
  simp only [List.mem_append, hpage, not_or, Bool.decide_and]
  ac_rfl

/-- Whatever the moves come to, the rounds go through the rows that are left, one page after the other,
and end at the first with an event or behind the last. -/
theorem readPages_pages (h : db.IsSelectable) (hsize : 0 < s.pageSize) {left : List Row}
    (hleft : db.ordered.filter (fun r => r.id ∉ skipped) = left) {fuel : Nat}
    (hfuel : left.length < fuel) :
    ∃ found passed tried s' db', s.readPages db skipped fuel = (.ok found, s', db') ∧
      s.Pages db skipped (.ok found, s', db') ∧ FirstPage s.pageSize left found passed ∧
      Tries s.tableName db db' tried ∧ tried.map Attempt.row = passed.filter (·.event?.isNone) ∧
      ∀ a ∈ tried, a.IsFounded := by
  induction fuel generalizing s db skipped left with
  | zero => exact absurd hfuel (Nat.not_lt_zero _)
  | succ fuel ih =>
    obtain ⟨vs, hselect, hdecode⟩ := h.select s.tableName s.pageSize skipped
    have hafter :=
      db.tries_after s.tableName (.select s.pageSize skipped) (by simp [Statement.kind])
    rw [page, hleft] at hdecode
    have hsub : left.take s.pageSize ⊆ db.rows := take_subset_of_left hleft s.pageSize
    have hpage : ((left.take s.pageSize).map Row.id).Nodup :=
      (nodup_left h.nodup hleft).sublist ((List.take_sublist _ _).map Row.id)
    unfold readPages
    rw [hselect]
    cases vs with
    | nil =>
      have hnil : left = [] := by
        have hrs := List.map_eq_nil_iff.mp (map_fst_decode hdecode).symm
        exact (List.take_eq_nil_iff.mp hrs).resolve_left (Nat.pos_iff_ne_zero.mp hsize)
      refine ⟨none, left, [], s, _, rfl, .empty hselect, .nothing ?_, hafter, ?_, ?_⟩
      · rw [hnil]
        exact fun r hr => absurd hr List.not_mem_nil
      · rw [hnil]
        rfl
      · exact fun a ha => absurd ha List.not_mem_nil
    | cons v vs =>
      obtain ⟨tried, htries, hrows, hfounded, hresult, hsize', hname⟩ :=
        sort_tries hdecode s (h.after s.tableName (.select s.pageSize skipped)).isOpen h.nodup hpage
          hsub
      rcases hsort : s.sort (db.after s.tableName (.select s.pageSize skipped)) (v :: vs)
        with ⟨⟨events, ids, stuck⟩, s', db'⟩
      rw [hsort] at htries hresult hsize' hname
      obtain ⟨hevents, hids, hstuck⟩ := Sorted.mk.inj hresult
      have hstuck : stuck = (tried.filter (!db.moves ·)).map (·.row.id) := hstuck
      have htried := hafter.trans htries
      rw [List.nil_append] at htried
      simp only [hsort]
      cases events with
      | nil =>
        -- none of the page is an event, so all of it has been tried
        have hnone : ∀ r ∈ left.take s.pageSize, r.event? = none :=
          List.filterMap_eq_nil_iff.mp hevents.symm
        have hwhole : tried.map Attempt.row = left.take s.pageSize := by
          rw [hrows]
          exact List.filter_eq_self.mpr fun r hr => by rw [hnone r hr, Option.isNone_none]
        have hrest := left_of_tries h.nodup hleft htried hwhole
        have hfewer : (left.drop s.pageSize).length < fuel := by
          have hlen := congrArg List.length (map_fst_decode hdecode)
          rw [List.length_map, List.length_map, List.length_take, List.length_cons] at hlen
          rw [List.length_drop]
          omega
        obtain
          ⟨found, passed, tried', s₁, db₁, hread, hpages, hfirst, htries', hrows', hfounded'⟩ :=
          ih (h.tries htried) (hsize' ▸ hsize) hrest hfewer
        rw [← hstuck] at hread hpages
        refine ⟨found, left.take s.pageSize ++ passed, tried ++ tried', s₁, db₁, hread,
          .next hselect hsort hpages, (hsize' ▸ hfirst).pass hnone, htried.trans (hname ▸ htries'),
          ?_, ?_⟩
        · rw [List.map_append, List.filter_append, hrows, hrows']
        · exact List.forall_mem_append.mpr ⟨hfounded, hfounded'⟩
      | cons e es =>
        have hfirst := FirstPage.first (b := ⟨e :: es, .rows ids⟩) hevents (List.cons_ne_nil e es)
          (congrArg Token.rows hids)
        exact ⟨_, left.take s.pageSize, tried, _, db', rfl, .found hselect hsort, hfirst, htried,
          hrows, hfounded⟩

/-- A reading ends, and its rounds are those of the loop without a bound. It finds nothing exactly if
no row of the table is an event. What it finds otherwise are the first events in order, at least one and
no more than fit on a page.

Every row that has been passed and is no event has been tried to be moved exactly once, and no other
row: it is among the dead letters if the move was executed, and still in the table if not. The rows that
are events are as before. -/
theorem first_page_with_events_read (h : db.IsSelectable) (hsize : 0 < s.pageSize) :
    ∃ found passed tried,
      (s.nextBatch db).1 = .ok found ∧ s.Pages db [] (s.nextBatch db) ∧
      FirstPage s.pageSize db.ordered found passed ∧
      (found = none ↔ ∀ r ∈ db.rows, r.event? = none) ∧
      (∀ b, found = some b → b.events ≠ [] ∧ b.events.length ≤ s.pageSize ∧
        b.events <+: db.ordered.filterMap Row.event?) ∧
      Tries s.tableName db (s.nextBatch db).2.2 tried ∧
      tried.map Attempt.row = passed.filter (·.event?.isNone) ∧ (tried.map Attempt.row).Nodup ∧
      (∀ a ∈ tried, a.IsFounded) ∧
      (∀ a ∈ tried, if db.moves a = true
        then a.letter ∈ (s.nextBatch db).2.2.dead ∧ a.row ∉ (s.nextBatch db).2.2.rows
        else a.row ∈ (s.nextBatch db).2.2.rows) ∧
      (s.nextBatch db).2.2.rows.filter (·.event?.isSome) =
        db.rows.filter (·.event?.isSome) := by
  have hleft : db.ordered.filter (fun r => r.id ∉ ([] : List Int)) = db.ordered :=
    List.filter_eq_self.mpr (by simp)
  have hfuel : db.ordered.length < db.rows.length + 1 := by
    rw [db.ordered_perm.length_eq]
    exact Nat.lt_succ_self _
  obtain ⟨found, passed, tried, s', db', hread, hpages, hfirst, htries, hrows, hfounded⟩ :=
    readPages_pages h hsize hleft hfuel
  have hresult : s.nextBatch db = (.ok found, s', db') := hread
  rw [hresult]
  have hmem : ∀ r, r ∈ db.ordered ↔ r ∈ db.rows := fun r => db.ordered_perm.mem_iff
  have htried : ∀ a ∈ tried, a.row ∈ db.rows ∧ a.row.event? = none := by
    intro a ha
    have hrow : a.row ∈ passed.filter (·.event?.isNone) := hrows ▸ List.mem_map_of_mem ha
    obtain ⟨hpassed, hnone⟩ := List.mem_filter.mp hrow
    exact ⟨(hmem _).mp (hfirst.passed_prefix.subset hpassed), Option.isNone_iff_eq_none.mp hnone⟩
  -- no row is tried twice, since none comes twice in order
  have honce : (tried.map Attempt.row).Nodup := by
    have hordered : db.ordered.Nodup := db.ordered_perm.nodup_iff.mpr h.nodup.of_map
    rw [hrows]
    exact (hordered.sublist hfirst.passed_prefix.sublist).filter _
  refine ⟨found, passed, tried, rfl, hpages, hfirst, ?_, ?_, htries, hrows, honce, hfounded, ?_, ?_⟩
  · rw [hfirst.found_eq_none_iff]
    exact forall_congr' fun r => by rw [hmem]
  · rintro b rfl
    exact hfirst.oldest
  · intro a ha
    split
    · rename_i hmoves
      exact htries.gone ha hmoves
    · rename_i hmoves
      refine htries.stays h.nodup (fun b hb => (htried b hb).1) (htried a ha).1
        fun b hb hmoved heq => ?_
      rw [List.inj_on_of_nodup_map honce hb ha heq] at hmoved
      exact hmoves hmoved
  · exact htries.readable h.nodup (fun a ha => (htried a ha).1) fun a ha => (htried a ha).2

end TableStore

/-- Two rows that are no events, the first of which cannot be moved, before two that are. -/
def Database.stuckFirst : Database where
  rows := [⟨1, 0, "7"⟩, ⟨2, 0, "8"⟩, ⟨3, 1, "\x7b\"id\":\"a\"\x7d"⟩, ⟨4, 1, "\x7b\"id\":\"b\"\x7d"⟩]
  dead := []
  lastId := 4
  lastCreated := 1
  history := []
  refuse := fun
    | _, .move 1 _ => some (.other "locked")
    | _, _ => none
  nextId _ id := id + 1
  clock _ created := created
  shownCount := none
  closed := false

/-- Two rows are read at a time. -/
def TableStore.ofPairs : TableStore := ⟨"q", 2, 4, default⟩

theorem first_page_with_events_read_stuck :
    Database.stuckFirst.IsSelectable ∧ 0 < TableStore.ofPairs.pageSize ∧
    ∃ found passed tried,
      (TableStore.ofPairs.nextBatch .stuckFirst).1 = .ok found ∧
      TableStore.ofPairs.Pages .stuckFirst [] (TableStore.ofPairs.nextBatch .stuckFirst) ∧
      TableStore.FirstPage TableStore.ofPairs.pageSize Database.stuckFirst.ordered found passed ∧
      (found = none ↔ ∀ r ∈ Database.stuckFirst.rows, r.event? = none) ∧
      (∀ b, found = some b → b.events ≠ [] ∧ b.events.length ≤ TableStore.ofPairs.pageSize ∧
        b.events <+: Database.stuckFirst.ordered.filterMap Row.event?) ∧
      Database.Tries TableStore.ofPairs.tableName .stuckFirst
        (TableStore.ofPairs.nextBatch .stuckFirst).2.2 tried ∧
      tried.map Database.Attempt.row = passed.filter (·.event?.isNone) ∧
      (tried.map Database.Attempt.row).Nodup ∧ (∀ a ∈ tried, a.IsFounded) ∧
      (∀ a ∈ tried, if Database.stuckFirst.moves a = true
        then a.letter ∈ (TableStore.ofPairs.nextBatch .stuckFirst).2.2.dead ∧
          a.row ∉ (TableStore.ofPairs.nextBatch .stuckFirst).2.2.rows
        else a.row ∈ (TableStore.ofPairs.nextBatch .stuckFirst).2.2.rows) ∧
      (TableStore.ofPairs.nextBatch .stuckFirst).2.2.rows.filter (·.event?.isSome) =
        Database.stuckFirst.rows.filter (·.event?.isSome) := by
  have hread : ∀ r ∈ Database.stuckFirst.rows, (Json.ofText r.data).toOption.isSome = true := by
    decide +kernel
  have hselectable : Database.stuckFirst.IsSelectable := by
    refine ⟨by decide, rfl, fun _ _ _ => rfl, fun r hr => ?_⟩
    have hsome := hread r hr
    cases hv : Json.ofText r.data with
    | ok v => exact ⟨v, rfl⟩
    | error f =>
      rw [hv] at hsome
      cases hsome
  exact ⟨hselectable, by decide, TableStore.first_page_with_events_read hselectable (by decide)⟩

end AuditRelay
