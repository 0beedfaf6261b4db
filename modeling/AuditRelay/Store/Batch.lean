import AuditRelay.Event.Basic

/-!
# AuditRelay.Store.Batch — events that are read together

Reading a store gives its oldest events and a token; committing the token takes them out of the
store. A batch that is dropped changes nothing, and its events are read again.
-/

namespace AuditRelay

/-- What a commit takes out of a store. -/
inductive Token where
  /-- The oldest events of a store in memory. -/
  | oldest (count : Nat)
  /-- A file of a spool. -/
  | file (name : String)
  /-- Rows of a table. -/
  | rows (ids : List Int)
  deriving DecidableEq, Repr

/-- Events that were read together, and what committing them takes out. -/
structure Batch where
  events : List Event
  token : Token
  deriving DecidableEq, Repr

end AuditRelay
