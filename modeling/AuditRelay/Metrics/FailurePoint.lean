/-!
# AuditRelay.Metrics.FailurePoint — the activities of a store whose failures are counted

Each has a label under which the error counter keeps its count.
-/

namespace AuditRelay

/-- A kind of error of a store. -/
inductive FailurePoint where
  | writeStat
  | writeFull
  | writeOpen
  | writeMarshal
  | writeIo
  | writeSync
  | writeClose
  | writeCount
  | writeInsert
  | readOpen
  | readScan
  | readQuery
  | readUnmarshal
  | corruptedEvent
  | deadLetterWrite
  | deadLetterWriteFailed
  | deadLetterReplace
  | commitRemove
  | commitDelete
  deriving DecidableEq, Repr, Inhabited

namespace FailurePoint

/-- All kinds, in the order of their declaration. -/
def all : List FailurePoint :=
  [.writeStat, .writeFull, .writeOpen, .writeMarshal, .writeIo, .writeSync, .writeClose,
    .writeCount, .writeInsert, .readOpen, .readScan, .readQuery, .readUnmarshal, .corruptedEvent,
    .deadLetterWrite, .deadLetterWriteFailed, .deadLetterReplace, .commitRemove, .commitDelete]

/-- Each kind is listed, and once. -/
theorem count_all (op : FailurePoint) : all.count op = 1 := by
  cases op <;> rfl

/-- The value of the counter's `operation` label. -/
def label : FailurePoint → String
  | .writeStat => "write_stat"
  | .writeFull => "write_full"
  | .writeOpen => "write_open"
  | .writeMarshal => "write_marshal"
  | .writeIo => "write_io"
  | .writeSync => "write_sync"
  | .writeClose => "write_close"
  | .writeCount => "write_count"
  | .writeInsert => "write_insert"
  | .readOpen => "read_open"
  | .readScan => "read_scan"
  | .readQuery => "read_query"
  | .readUnmarshal => "read_unmarshal"
  | .corruptedEvent => "corrupted_event"
  | .deadLetterWrite => "deadletter_write"
  | .deadLetterWriteFailed => "deadletter_write_failed"
  | .deadLetterReplace => "deadletter_rewrite"
  | .commitRemove => "commit_remove"
  | .commitDelete => "commit_delete"

end FailurePoint

end AuditRelay
