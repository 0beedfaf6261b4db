import AuditRelay.Scenario.Bench
import AuditRelay.Scenario.Directory

/-!
# AuditRelay.Scenario.TableRun — a script for a store in a table

The database refuses statements as the script tells it: the next executions of a kind, and moves of
rows that are stuck. What has been refused can be counted from the executed statements, so the
database needs no memory of its own for it.
-/

namespace AuditRelay.Scenario

/-- How a database is disturbed. -/
structure Disturbance where
  /-- How many executions of a kind are refused. -/
  faults : List (StatementKind × Nat) := []
  /-- How many statements had been executed before that was set. -/
  since : Nat := 0
  /-- Rows that cannot be moved. -/
  stuck : List Int := []
  /-- The number of rows that is shown in place of the true one. -/
  count : Option Int := none

namespace Disturbance

/-- What kinds of statement are called in messages. -/
def label : StatementKind → String
  | .createTable => "create_table"
  | .createIndex => "create_index"
  | .createDeadLetter => "create_dead_letter"
  | .count => "count"
  | .insert => "insert"
  | .select => "select"
  | .delete => "delete"
  | .move => "move"

/-- Whether a statement is refused after those that have been executed. -/
def refuse (d : Disturbance) (history : List Executed) (st : Statement) : Option DatabaseFault :=
  let before := (history.take (history.length - d.since)).countP (·.statement.kind = st.kind)
  if before < (d.faults.lookup st.kind).getD 0 then
    some (.reported ("injected " ++ label st.kind ++ " failure"))
  else
    match st with
    | .move id _ => if id ∈ d.stuck then some (.reported "row cannot be moved") else none
    | _ => none

/-- Applies a disturbance to a database. -/
def apply (d : Disturbance) (db : Database) : Database :=
  { db with refuse := d.refuse, shownCount := d.count }

end Disturbance

/-- A row that a script puts into the table; what it leaves open counts on. -/
structure NewRow where
  data : String
  id : Option Int
  created : Option Int

/-- The table with more rows. -/
def addRows (db : Database) (rows : List NewRow) : Database :=
  rows.foldl (fun db row =>
    db.addRow (row.id.getD (db.lastId + 1)) (row.created.getD (db.lastCreated + 1)) row.data) db

/-- An empty database, which counts identifiers and times one by one. -/
def database (d : Disturbance) : Database :=
  ⟨[], [], 0, 0, [], d.refuse, fun _ id => id + 1, fun _ t => t + 1, d.count, false⟩

/-- A step of a script. -/
inductive TableStep where
  | store (step : StoreStep)
  | rows (rows : List NewRow)
  /-- Replaces what is given of the disturbance. -/
  | configure (faults : Option (List (StatementKind × Nat))) (stuck : Option (List Int))
      (count : Option (Option Int))
  /-- The host closes the pool. -/
  | closePool

/-- A bench with a database. -/
structure TableRun where
  bench : Bench
  disturbance : Disturbance

namespace TableRun

/-- The database. -/
def db (run : TableRun) : Database :=
  run.bench.site.database.getD (database run.disturbance)

def withDb (run : TableRun) (db : Database) : TableRun :=
  { run with bench := { run.bench with site := { run.bench.site with database := some db } } }

/-- Opens the store over a table that holds some rows. -/
def create (d : Disturbance) (rows : List NewRow) (params : StoreParameters) :
    Except Fault Unit × TableRun :=
  let (r, bench) :=
    (Bench.empty (site (some (addRows (database d) rows)))).create (.ok params) []
  (r, ⟨bench, d⟩)

/-- Performs a step. -/
def step (run : TableRun) : TableStep → StoreResult × TableRun
  | .store s =>
    let (r, bench) := run.bench.step s
    (r, { run with bench })
  | .rows rows => (.done (.ok ()), run.withDb (addRows run.db rows))
  | .configure faults stuck count =>
    let d := run.disturbance
    let d := match faults with
      | some faults => { d with faults, since := run.db.history.length }
      | none => d
    let d := { d with stuck := stuck.getD d.stuck, count := count.getD d.count }
    (.done (.ok ()), { run with disturbance := d }.withDb (d.apply run.db))
  | .closePool => (.done (.ok ()), run.withDb { run.db with closed := true })

/-- The statements that were executed after the first `n`. -/
def executedSince (run : TableRun) (n : Nat) : List Executed :=
  (run.db.history.take (run.db.history.length - n)).reverse

end TableRun

end AuditRelay.Scenario
