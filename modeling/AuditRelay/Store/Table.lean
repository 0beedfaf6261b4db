import AuditRelay.Event.Text
import AuditRelay.Metrics.Counters
import AuditRelay.Store.Batch
import AuditRelay.Store.Parameters
import AuditRelay.Store.Table.Database
import AuditRelay.Store.TableName

/-!
# AuditRelay.Store.Table — a queue in a database table

Events are rows; the oldest page of rows is a batch, and committing deletes its rows. A row that is
no event is moved to the dead-letter table while it is read; where that fails the row stays and is
skipped for the rest of the reading. The number of rows is checked before each write.
-/

namespace AuditRelay

/-- A store that keeps its events in a table. The rows themselves are in the database. -/
structure TableStore where
  tableName : String
  pageSize : Nat
  limit : Nat
  counters : StoreCounters
  deriving DecidableEq, Repr

namespace TableStore

def defaultName : String := "audit_events"

def defaultPageSize : Nat := 100

def defaultLimit : Nat := 10000

def sizeDescription : String := "Current number of events in the SQL backing store."

/-- Executes statements that create tables, up to the first that is refused. -/
def migrate (table : String) (db : Database) : List Statement → Except Fault Unit × Database
  | [] => (.ok (), db)
  | st :: sts =>
    match db.create table st with
    | (.error f, db) => (.error (.database f), db)
    | (.ok (), db) => migrate table db sts

/-- Opens a store: checks the name and the limits, creates the tables unless told not to, and
registers the metrics. -/
def create (p : TableParameters) (r : Registry) (db : Database) :
    Except Fault TableStore × Registry × Database :=
  let tableName := (p.tableName.filter fun s => !s.isEmpty).getD defaultName
  let pageSize := p.batchSize.getD defaultPageSize
  let limit := p.maxEvents.getD defaultLimit
  if !isTableName tableName then (.error (.invalidConfig (.tableName tableName)), r, db)
  else if pageSize = 0 then (.error (.invalidConfig .batchSizeZero), r, db)
  else if limit = 0 then (.error (.invalidConfig (.eventLimitZero .sql)), r, db)
  else
    let steps : List Statement :=
      if p.skipMigration.getD false then [] else [.createTable, .createIndex, .createDeadLetter]
    match migrate tableName db steps with
    | (.error f, db) => (.error f, r, db)
    | (.ok (), db) =>
      match StoreCounters.register r sizeDescription false with
      | (.error f, r) => (.error f, r, db)
      | (.ok counters, r) => (.ok ⟨tableName, pageSize, limit, counters⟩, r, db)

/-- The number of rows, never below zero. -/
def rowCount (s : TableStore) (db : Database) : Except Fault Nat × Database :=
  match db.count s.tableName with
  | (.error f, db) => (.error (.database f), db)
  | (.ok n, db) => (.ok n.toNat, db)

/-- The store with one more error. -/
def countError (s : TableStore) (op : FailurePoint) : TableStore :=
  { s with counters := s.counters.countError op }

/-- Inserts an event, unless there are as many rows as allowed. -/
def write (s : TableStore) (db : Database) (e : Event) :
    Except Fault Unit × TableStore × Database :=
  match s.rowCount db with
  | (.error f, db) => (.error f, s.countError .writeCount, db)
  | (.ok n, db) =>
    if s.limit ≤ n then (.error (.storeFull n s.limit), s.countError .writeFull, db)
    else
      match db.insert s.tableName e.toJson.text with
      | (.error f, db) => (.error (.database f), s.countError .writeInsert, db)
      | (.ok (), db) => (.ok (), { s with counters := s.counters.countWrite }, db)

/-- The events of a page with their rows, and the rows that could not be moved. -/
structure Sorted where
  events : List Event
  ids : List Int
  stuck : List Int

/-- Separates the events of a page from the rows that are none, which are moved away. -/
def sort (s : TableStore) (db : Database) : List (Int × Json) → Sorted × TableStore × Database
  | [] => (⟨[], [], []⟩, s, db)
  | (id, v) :: rest =>
    match Event.ofJson v with
    | .ok e =>
      let (p, s, db) := s.sort db rest
      (⟨e :: p.events, id :: p.ids, p.stuck⟩, s, db)
    | .error f =>
      let s := s.countError .readUnmarshal
      match db.move s.tableName id (Event.refusal f) with
      | (.ok (), db) => (s.countError .deadLetterWrite).sort db rest
      | (.error _, db) =>
        let (p, s, db) := (s.countError .deadLetterWriteFailed).sort db rest
        (⟨p.events, p.ids, id :: p.stuck⟩, s, db)

/-- Reads pages until one holds an event or is empty. Every page without an event leaves fewer rows
that are not skipped, so `fuel` need only pass the number of rows. -/
def readPages (s : TableStore) (db : Database) (skipped : List Int) :
    (fuel : Nat) → Except Fault (Option Batch) × TableStore × Database
  | 0 => (.ok none, s, db)
  | fuel + 1 =>
    match db.select s.tableName s.pageSize skipped with
    | (.error f, db) => (.error (.database f), s.countError .readQuery, db)
    | (.ok [], db) => (.ok none, s, db)
    | (.ok (row :: rows), db) =>
      match s.sort db (row :: rows) with
      | (⟨[], _, stuck⟩, s, db) => s.readPages db (skipped ++ stuck) fuel
      | (⟨e :: es, ids, _⟩, s, db) =>
        (.ok (some ⟨e :: es, .rows ids⟩),
          { s with counters := s.counters.countReads (e :: es).length }, db)

/-- The oldest events, at most `pageSize` of them. -/
def nextBatch (s : TableStore) (db : Database) :
    Except Fault (Option Batch) × TableStore × Database :=
  s.readPages db [] (db.rows.length + 1)

/-- Deletes the rows of a batch. -/
def commit (s : TableStore) (db : Database) (ids : List Int) :
    Except Fault Unit × TableStore × Database :=
  match db.delete s.tableName ids with
  | (.error f, db) => (.error (.database f), s.countError .commitDelete, db)
  | (.ok (), db) => (.ok (), s, db)

/-- Sets the size gauge. -/
def refreshGauges (s : TableStore) (db : Database) : Except Fault Unit × TableStore × Database :=
  match s.rowCount db with
  | (.error f, db) => (.error f, s, db)
  | (.ok n, db) => (.ok (), { s with counters := s.counters.setSize n }, db)

end TableStore

end AuditRelay
