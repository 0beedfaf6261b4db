import AuditRelay.Json.Fault
import AuditRelay.Metrics.FailurePoint

/-!
# AuditRelay.Fault — what can go wrong

Faults are causes: one type for each side that can fail (the configuration, the operating system,
the database, the broker, the metrics registry) and `Fault` over all of them. The wording stands in
the `message` functions. Only `Fault.storeFull` makes the relay wait; every other fault of a store
or the broker is passing and is met by a later attempt.
-/

namespace AuditRelay

/-- The kinds of store that the library brings. -/
inductive StoreKind where
  | memory
  | file
  | sql
  deriving DecidableEq, Repr

def StoreKind.name : StoreKind → String
  | .memory => "memory"
  | .file => "file"
  | .sql => "sql"

/-- Why a configuration is refused. -/
inductive ConfigFault where
  | missingVariable (name : String)
  | capacityNotPositive (name text : String)
  | specMalformed (fault : JsonFault)
  | parametersMalformed (kind : StoreKind) (fault : JsonFault)
  | directoryMissing
  | fileSizeZero
  | eventLimitZero (kind : StoreKind)
  | batchSizeZero
  | tableName (name : String)
  | poolMissing
  /-- A host's own store refuses its parameters in words of its own. -/
  | custom (reason : String)
  deriving DecidableEq, Repr

def ConfigFault.message : ConfigFault → String
  | .missingVariable name => "missing required variable " ++ name
  | .capacityNotPositive name text =>
    name ++ " must be a positive integer, got " ++ Text.quoted text
  | .specMalformed f => "failed to parse backing store config: " ++ f.message
  | .parametersMalformed kind f =>
    "failed to parse " ++ kind.name ++ " backing store config: " ++ f.message
  | .directoryMissing => "directory is required for file backing store"
  | .fileSizeZero => "max_file_size must be greater than zero for file backing store"
  | .eventLimitZero kind =>
    "max_events must be greater than zero for " ++ kind.name ++ " backing store"
  | .batchSizeZero => "batch_size must be greater than zero for sql backing store"
  | .tableName name => "invalid table name: " ++ Text.quoted name
  | .poolMissing => "database pool is required for sql backing store"
  | .custom reason => reason

/-- Why the operating system refuses a call. -/
inductive SystemFault where
  | notFound
  | alreadyExists
  | notADirectory
  | isADirectory
  | invalidArgument
  | noSpace
  | nameTooLong
  | notEmpty
  | tooManyLinks
  | nulInName
  | other (text : String)
  deriving DecidableEq, Repr

def SystemFault.message : SystemFault → String
  | .notFound => "No such file or directory (os error 2)"
  | .alreadyExists => "File exists (os error 17)"
  | .notADirectory => "Not a directory (os error 20)"
  | .isADirectory => "Is a directory (os error 21)"
  | .invalidArgument => "Invalid argument (os error 22)"
  | .noSpace => "No space left on device (os error 28)"
  | .nameTooLong => "File name too long (os error 36)"
  | .notEmpty => "Directory not empty (os error 39)"
  | .tooManyLinks => "Too many levels of symbolic links (os error 40)"
  | .nulInName => "file name contained an unexpected NUL byte"
  | .other text => text

/-- What a store was about when the operating system refused. -/
inductive IoTask where
  | counted (op : FailurePoint)
  | createDirectory
  | listDirectory
  | openDeadLetter
  | writeDeadLetter
  | syncDeadLetter
  | other (name : String)
  deriving DecidableEq, Repr

def IoTask.label : IoTask → String
  | .counted op => op.label
  | .createDirectory => "create_dir"
  | .listDirectory => "read_dir"
  | .openDeadLetter => "deadletter_open"
  | .writeDeadLetter => "deadletter_write"
  | .syncDeadLetter => "deadletter_sync"
  | .other name => name

/-- Why the database refuses a statement. -/
inductive DatabaseFault where
  | reported (text : String)
  | decoding (column : Nat) (fault : JsonFault)
  | poolClosed
  | other (text : String)
  deriving DecidableEq, Repr

def DatabaseFault.message : DatabaseFault → String
  | .reported text => "error returned from database: " ++ text
  | .decoding column f =>
    "error occurred while decoding column " ++ toString column ++ ": " ++ f.message
  | .poolClosed => "attempted to acquire a connection on a closed pool"
  | .other text => text

/-- Why the broker, or a connection to it, refuses a call. -/
inductive BrokerFault where
  | refused
  | connectionClosed
  | publishRefused (queue : String)
  | lagged (missed : Nat)
  | other (text : String)
  deriving DecidableEq, Repr

def BrokerFault.message : BrokerFault → String
  | .refused => "broker unavailable: connection refused"
  | .connectionClosed => "connection closed"
  | .publishRefused queue => "broker unavailable: failed to publish to " ++ queue
  | .lagged missed => "channel lagged by " ++ toString missed
  | .other text => text

/-- Why the metrics registry refuses a collector. -/
inductive RegistryFault where
  | duplicate
  deriving DecidableEq, Repr

def RegistryFault.message : RegistryFault → String
  | .duplicate => "Duplicate metrics collector registration attempted"

/-- Any fault of the relay. -/
inductive Fault where
  | invalidConfig (reason : ConfigFault)
  | unknownStoreType (name : String)
  | storeFull (current limit : Nat)
  | io (task : IoTask) (cause : SystemFault)
  | record (fault : JsonFault)
  | database (reason : DatabaseFault)
  | broker (reason : BrokerFault)
  | closed
  | metrics (reason : RegistryFault)
  /-- No stamp is left that could be given to a file. -/
  | stampsExhausted
  /-- The intake of a relay cannot have as many places. -/
  | capacityTooLarge (capacity : Nat)
  deriving DecidableEq, Repr

namespace Fault

def message : Fault → String
  | .invalidConfig reason => "invalid config: " ++ reason.message
  | .unknownStoreType name => "unknown backing store type: " ++ name
  | .storeFull current limit =>
    "backing store full: current size " ++ toString current ++ " exceeds limit " ++ toString limit
  | .io task cause => "io error: op=" ++ task.label ++ ", reason=" ++ cause.message
  | .record f => "serialization error: " ++ f.message
  | .database reason => "database error: " ++ reason.message
  | .broker reason => "broker error: " ++ reason.message
  | .closed => "audit trail is no longer accepting events"
  | .metrics reason => "metrics error: " ++ reason.message
  | .stampsExhausted => "no stamp is left for a file"
  | .capacityTooLarge capacity =>
    "an intake cannot have " ++ toString capacity ++ " places"

/-- Whether the store has no room, so that the producer is to wait and not to retry. -/
def isStoreFull : Fault → Bool
  | .storeFull _ _ => true
  | _ => false

end Fault

end AuditRelay
