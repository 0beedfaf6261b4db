import AuditRelay.Fault
import AuditRelay.Json.Embedded
import AuditRelay.Store.Table.Statement

/-!
# AuditRelay.Store.Table.Database — the tables of a store

The event table holds rows with an identifier, the time of their creation and the text of a JSON
value; the dead-letter table holds what was moved out of it. Each statement is executed whole or is
refused. `refuse` decides that from the statements executed before, so that a statement over every
database is a statement over every pattern of failures. `nextId` and `clock` decide as freely about
the identifiers, which may have gaps, and about the times, which may stand still or go back.
-/

namespace AuditRelay

/-- A row of the event table. -/
structure Row where
  id : Int
  created : Int
  data : String
  deriving DecidableEq, Repr

/-- The order in which rows are read. -/
def Row.le (a b : Row) : Bool :=
  a.created < b.created || (a.created == b.created && a.id ≤ b.id)

/-- A row of the dead-letter table. -/
structure DeadRow where
  source : Int
  data : String
  error : String
  deriving DecidableEq, Repr

/-- An executed statement and the table it was written for. -/
structure Executed where
  table : String
  statement : Statement
  deriving DecidableEq, Repr

/-- The two tables and their server. -/
structure Database where
  /-- The event table, in the order of insertion. -/
  rows : List Row
  dead : List DeadRow
  /-- The highest identifier and the latest time that were ever given. -/
  lastId : Int
  lastCreated : Int
  /-- The executed statements, last first. -/
  history : List Executed
  refuse : List Executed → Statement → Option DatabaseFault
  /-- The identifier that an inserted row gets, given the highest one so far. -/
  nextId : List Executed → Int → Int
  /-- The time of creation that an inserted row gets, given the latest one so far. -/
  clock : List Executed → Int → Int
  /-- What the server shows as the number of rows, in place of the true one. -/
  shownCount : Option Int
  closed : Bool

namespace Database

/-- The rows in the order in which they are read. -/
def ordered (db : Database) : List Row :=
  db.rows.mergeSort Row.le

/-- Receives a statement and decides whether it is refused. A closed pool does not even receive
it. -/
def receive (db : Database) (table : String) (st : Statement) : Option DatabaseFault × Database :=
  if db.closed then (some .poolClosed, db)
  else (db.refuse db.history st, { db with history := ⟨table, st⟩ :: db.history })

/-- A statement that either is refused or acts. -/
def perform {α : Type} (db : Database) (table : String) (st : Statement)
    (act : Database → Except DatabaseFault α × Database) : Except DatabaseFault α × Database :=
  match db.receive table st with
  | (some f, db) => (.error f, db)
  | (none, db) => act db

/-- Creates what is there already. -/
def create (db : Database) (table : String) (st : Statement) :
    Except DatabaseFault Unit × Database :=
  db.perform table st fun db => (.ok (), db)

/-- The number of rows. -/
def count (db : Database) (table : String) : Except DatabaseFault Int × Database :=
  db.perform table .count fun db => (.ok (db.shownCount.getD db.rows.length), db)

/-- Puts a row behind all others. -/
def addRow (db : Database) (id created : Int) (data : String) : Database :=
  { db with
    rows := db.rows ++ [⟨id, created, data⟩]
    lastId := max db.lastId id
    lastCreated := max db.lastCreated created }

/-- Inserts a row with the next identifier, at the time that the server shows. -/
def insert (db : Database) (table : String) (data : String) :
    Except DatabaseFault Unit × Database :=
  db.perform table (.insert data) fun db =>
    (.ok (), db.addRow (db.nextId db.history db.lastId) (db.clock db.history db.lastCreated) data)

/-- The values of rows, or why the first that is no JSON text is refused. -/
def decode : List Row → Except DatabaseFault (List (Int × Json))
  | [] => .ok []
  | r :: rs =>
    match Json.ofText r.data with
    | .error f => .error (.decoding 1 f)
    | .ok v =>
      match decode rs with
      | .error f => .error f
      | .ok vs => .ok ((r.id, v) :: vs)

/-- The first rows that are not skipped. -/
def page (db : Database) (limit : Nat) (skipped : List Int) : List Row :=
  (db.ordered.filter fun r => r.id ∉ skipped).take limit

/-- Selects and decodes a page. -/
def select (db : Database) (table : String) (limit : Nat) (skipped : List Int) :
    Except DatabaseFault (List (Int × Json)) × Database :=
  db.perform table (.select limit skipped) fun db => (decode (db.page limit skipped), db)

/-- Deletes rows. -/
def delete (db : Database) (table : String) (ids : List Int) :
    Except DatabaseFault Unit × Database :=
  db.perform table (.delete ids) fun db =>
    (.ok (), { db with rows := db.rows.filter fun r => r.id ∉ ids })

/-- Moves a row to the dead-letter table. -/
def move (db : Database) (table : String) (id : Int) (error : String) :
    Except DatabaseFault Unit × Database :=
  db.perform table (.move id error) fun db =>
    match db.rows.find? (·.id = id) with
    | none => (.ok (), db)
    | some r =>
      (.ok (), { db with
        rows := db.rows.eraseP (·.id = id)
        dead := db.dead ++ [⟨r.id, r.data, error⟩] })

end Database

end AuditRelay
