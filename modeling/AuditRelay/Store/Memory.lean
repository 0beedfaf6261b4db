import AuditRelay.Metrics.Counters
import AuditRelay.Store.Batch
import AuditRelay.Store.Parameters

/-!
# AuditRelay.Store.Memory — a bounded queue in memory

The events are kept in the order in which they were written, at most `limit` of them. A batch
is a copy of the whole queue; its commit takes as many events off the front, so events that were
written in between stay.
-/

namespace AuditRelay

/-- A store that lasts as long as the process. -/
structure MemoryStore where
  limit : Nat
  events : List Event
  counters : StoreCounters
  deriving DecidableEq, Repr

namespace MemoryStore

def defaultLimit : Nat := 1000

def sizeDescription : String := "Current number of events in the in-memory backing store."

/-- Opens an empty store and registers its metrics. -/
def create (p : MemoryParameters) (r : Registry) : Except Fault MemoryStore × Registry :=
  let limit := p.maxEvents.getD defaultLimit
  if limit = 0 then (.error (.invalidConfig (.eventLimitZero .memory)), r)
  else
    match StoreCounters.register r sizeDescription false with
    | (.ok counters, r) => (.ok ⟨limit, [], counters⟩, r)
    | (.error f, r) => (.error f, r)

/-- Appends an event, unless the store is full. -/
def write (s : MemoryStore) (e : Event) : Except Fault Unit × MemoryStore :=
  if s.limit ≤ s.events.length then
    (.error (.storeFull s.events.length s.limit),
      { s with counters := s.counters.countError .writeFull })
  else
    (.ok (), { s with events := s.events ++ [e], counters := s.counters.countWrite })

/-- A copy of all events, if there is one. -/
def nextBatch (s : MemoryStore) : Option Batch × MemoryStore :=
  if s.events.isEmpty then (none, s)
  else
    (some ⟨s.events, .oldest s.events.length⟩,
      { s with counters := s.counters.countReads s.events.length })

/-- Takes the oldest events out. -/
def commit (s : MemoryStore) (count : Nat) : MemoryStore :=
  { s with events := s.events.drop count }

/-- Sets the size gauge. -/
def refreshGauges (s : MemoryStore) : MemoryStore :=
  { s with counters := s.counters.setSize s.events.length }

end MemoryStore

end AuditRelay
