import AuditRelay.Metrics.Registry

/-!
# AuditRelay.Metrics.Counters — what a store and the relay loop count

`StoreCounters` belong to one store, `RelayCounters` to one loop. The errors of a store are kept as
the list of their kinds, so that the counter of a kind is its number of occurrences and the sum over
all kinds is the length.
-/

namespace AuditRelay

/-! ## A store -/

/-- The metrics of a store. -/
structure StoreCounters where
  writes : Nat
  reads : Nat
  errors : List FailurePoint
  size : Int
  files : Option Int
  deriving DecidableEq, Repr, Inhabited

namespace StoreCounters

def writesName : String := "audit_backing_store_writes_total"
def readsName : String := "audit_backing_store_reads_total"
def errorsName : String := "audit_backing_store_errors_total"
def sizeName : String := "audit_backing_store_size"
def filesName : String := "audit_backing_store_files"

/-- The families of a store, in the order of their registration. -/
def families (sizeDescription : String) (withFiles : Bool) : List Family :=
  [⟨writesName, .counter, "Total number of audit events written to the backing store."⟩,
    ⟨readsName, .counter, "Total number of audit events read from the backing store."⟩,
    ⟨errorsName, .counter, "Total number of errors encountered by the backing store."⟩,
    ⟨sizeName, .gauge, sizeDescription⟩] ++
  (if withFiles then
    [⟨filesName, .gauge, "Current number of files in the backing store."⟩]
  else [])

def zero (withFiles : Bool) : StoreCounters :=
  ⟨0, 0, [], 0, if withFiles then some 0 else none⟩

/-- Registers the families of a store and starts its counters. -/
def register (r : Registry) (sizeDescription : String) (withFiles : Bool) :
    Except Fault StoreCounters × Registry :=
  match r.registerAll (families sizeDescription withFiles) with
  | (.ok (), r) => (.ok (zero withFiles), r)
  | (.error e, r) => (.error (.metrics e), r)

def countWrite (c : StoreCounters) : StoreCounters := { c with writes := c.writes + 1 }

def countReads (c : StoreCounters) (n : Nat) : StoreCounters := { c with reads := c.reads + n }

def countError (c : StoreCounters) (op : FailurePoint) : StoreCounters :=
  { c with errors := op :: c.errors }

/-- Counts an error several times. -/
def countErrors (c : StoreCounters) (op : FailurePoint) (n : Nat) : StoreCounters :=
  { c with errors := List.replicate n op ++ c.errors }

def setSize (c : StoreCounters) (n : Nat) : StoreCounters := { c with size := n }

def setFiles (c : StoreCounters) (n : Nat) : StoreCounters :=
  { c with files := c.files.map fun _ => (n : Int) }

/-- The counter of one kind of error. -/
def errorCount (c : StoreCounters) (op : FailurePoint) : Nat := c.errors.count op

/-- What the collectors report; an error counter appears with its first error. -/
def samples (c : StoreCounters) : List Sample :=
  [⟨writesName, none, c.writes⟩, ⟨readsName, none, c.reads⟩, ⟨sizeName, none, c.size⟩] ++
  (c.files.map fun n => Sample.mk filesName none n).toList ++
  (FailurePoint.all.filter fun op => 0 < c.errorCount op).map
    fun op => ⟨errorsName, some op, c.errorCount op⟩

end StoreCounters

/-! ## The relay loop -/

/-- The metrics of a relay loop. -/
structure RelayCounters where
  published : Nat
  publishFailures : Nat
  buffered : Nat
  dropped : Nat
  drained : Nat
  backpressure : Bool
  deriving DecidableEq, Repr, Inhabited

namespace RelayCounters

def zero : RelayCounters := ⟨0, 0, 0, 0, 0, false⟩

def publishedName : String := "audit_trail_published_total"
def publishFailuresName : String := "audit_trail_publish_failures_total"
def bufferedName : String := "audit_trail_buffered_total"
def droppedName : String := "audit_trail_dropped_total"
def drainedName : String := "audit_trail_drained_total"
def backpressureName : String := "audit_trail_backpressure"

/-- The families of a loop, in the order of their registration. -/
def families : List Family :=
  [⟨publishedName, .counter, "Total number of audit events published to the broker."⟩,
    ⟨publishFailuresName, .counter, "Total number of failed attempts to publish an audit event."⟩,
    ⟨bufferedName, .counter,
      "Total number of audit events written to the backing store after a failed publish."⟩,
    ⟨droppedName, .counter,
      "Total number of audit events lost because the backing store rejected them."⟩,
    ⟨drainedName, .counter, "Total number of buffered audit events delivered and committed."⟩,
    ⟨backpressureName, .gauge, "1 while intake is paused because the backing store is full."⟩]

/-- Registers the families of a loop and starts its counters. -/
def register (r : Registry) : Except Fault RelayCounters × Registry :=
  match r.registerAll families with
  | (.ok (), r) => (.ok zero, r)
  | (.error e, r) => (.error (.metrics e), r)

def samples (c : RelayCounters) : List Sample :=
  [⟨publishedName, none, c.published⟩, ⟨publishFailuresName, none, c.publishFailures⟩,
    ⟨bufferedName, none, c.buffered⟩, ⟨droppedName, none, c.dropped⟩,
    ⟨drainedName, none, c.drained⟩, ⟨backpressureName, none, if c.backpressure then 1 else 0⟩]

end RelayCounters

end AuditRelay
