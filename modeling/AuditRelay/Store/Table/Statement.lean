/-!
# AuditRelay.Store.Table.Statement — the statements of a table store

A store in a database table executes eight statements. `Statement.text` writes one for the table of
a name; what varies between executions is bound as parameters.
-/

namespace AuditRelay

/-- The kinds of statement. -/
inductive StatementKind where
  | createTable
  | createIndex
  | createDeadLetter
  | count
  | insert
  | select
  | delete
  | move
  deriving DecidableEq, Repr

/-- A statement with its bound parameters. -/
inductive Statement where
  | createTable
  | createIndex
  | createDeadLetter
  | count
  | insert (data : String)
  | select (limit : Nat) (skipped : List Int)
  | delete (ids : List Int)
  | move (id : Int) (error : String)
  deriving DecidableEq, Repr

namespace Statement

def kind : Statement → StatementKind
  | createTable => .createTable
  | createIndex => .createIndex
  | createDeadLetter => .createDeadLetter
  | count => .count
  | insert _ => .insert
  | select _ _ => .select
  | delete _ => .delete
  | move _ _ => .move

/-- The text of a statement for a table. -/
def text (table : String) : Statement → String
  | createTable =>
    "CREATE TABLE IF NOT EXISTS " ++ table ++
      " (id BIGSERIAL PRIMARY KEY, event_data JSONB NOT NULL, " ++
      "created_at TIMESTAMPTZ NOT NULL DEFAULT NOW())"
  | createIndex =>
    "CREATE INDEX IF NOT EXISTS " ++ table ++ "_created_at_id_idx ON " ++ table ++
      " (created_at, id)"
  | createDeadLetter =>
    "CREATE TABLE IF NOT EXISTS " ++ table ++ "_deadletter (id BIGSERIAL PRIMARY KEY, " ++
      "source_id BIGINT NOT NULL, event_data JSONB NOT NULL, error TEXT NOT NULL, " ++
      "created_at TIMESTAMPTZ NOT NULL DEFAULT NOW())"
  | count => "SELECT COUNT(*) FROM " ++ table
  | insert _ => "INSERT INTO " ++ table ++ " (event_data) VALUES ($1)"
  | select _ _ =>
    "SELECT id, event_data FROM " ++ table ++
      " WHERE NOT (id = ANY($2)) ORDER BY created_at ASC, id ASC LIMIT $1"
  | delete _ => "DELETE FROM " ++ table ++ " WHERE id = ANY($1)"
  | move _ _ =>
    "WITH moved AS (DELETE FROM " ++ table ++ " WHERE id = $1 RETURNING id, event_data) " ++
      "INSERT INTO " ++ table ++ "_deadletter (source_id, event_data, error) " ++
      "SELECT id, event_data, $2 FROM moved"

end Statement

end AuditRelay
