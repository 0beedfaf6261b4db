import AuditRelay.Store.Assembly

/-!
# AuditRelay.Scenario.Bench — stores on a test bench

A bench holds the stores that a script has opened, one after the other, and the batches that it has
read and put into slots. The last store that could be opened is the one in use; a batch belongs to
the store that it was read from.
-/

namespace AuditRelay.Scenario

/-- A step on the store in use. -/
inductive StoreStep where
  | write (e : Event)
  /-- Writes events that are named by a stem and a number, up to the first that is refused. -/
  | fill (stem : String) (count : Nat)
  | read (slot : String)
  | commit (slot : String)
  | drop (slot : String)
  /-- Reads and commits until nothing is left. -/
  | drain
  | refreshGauges
  | close
  | metrics
  | directory
  | count
  /-- Opens another store, with a new registry or with the one in use. -/
  | reopen (params : Except Fault StoreParameters) (sameRegistry : Bool)

/-- What a step shows. -/
inductive StoreResult where
  | done (r : Except Fault Unit)
  | filled (written : Nat) (stop : Option Fault)
  | batch (r : Except Fault (Option Batch))
  | noBatch
  | drained (ids : List (List String)) (stop : Option Fault)
  | samples (xs : List Sample)
  | directory (path : Option String)
  | count (r : Except Fault Nat)

/-- Stores, slots and what is around them. -/
structure Bench where
  /-- The opened stores, last first. -/
  stores : List Store
  /-- The batches in the slots, each with the number of stores opened before its own. -/
  slots : Named (Nat × Batch)
  registry : Registry
  site : Site

namespace Bench

/-- How many batches a drain takes at most. -/
def maxBatches : Nat := 200

def empty (site : Site) : Bench := ⟨[], [], [], site⟩

/-- The store in use. -/
def store? (b : Bench) : Option Store := b.stores.head?

/-- Performs an operation on the store in use. -/
def on {α : Type} (b : Bench) (none : α) (act : Site → Store → α × Store × Site) : α × Bench :=
  match b.stores with
  | [] => (none, b)
  | s :: older =>
    let (a, s, site) := act b.site s
    (a, { b with stores := s :: older, site })

/-- Performs an operation on the store that was opened after `age` others. -/
def onOpened {α : Type} (b : Bench) (age : Nat) (none : α)
    (act : Site → Store → α × Store × Site) : α × Bench :=
  let i := b.stores.length - 1 - age
  match b.stores[i]? with
  | .none => (none, b)
  | some s =>
    let (a, s, site) := act b.site s
    (a, { b with stores := b.stores.set i s, site })

def write (b : Bench) (e : Event) : Except Fault Unit × Bench :=
  b.on (.error .closed) fun site s => s.write site e

def nextBatch (b : Bench) : Except Fault (Option Batch) × Bench :=
  b.on (.ok none) fun site s => s.nextBatch site

def commit (b : Bench) (token : Token) : Except Fault Unit × Bench :=
  b.on (.ok ()) fun site s => s.commit site token

def refreshGauges (b : Bench) : Except Fault Unit × Bench :=
  b.on (.ok ()) fun site s => s.refreshGauges site

def close (b : Bench) : Bench :=
  (b.on () fun site s => ((), s.close, site)).2

/-- What the registry reports of the store in use. -/
def samples (b : Bench) : List Sample :=
  match b.store? with
  | some s => b.registry.gather s.counters.samples
  | none => []

/-- Puts a store into use, or keeps the one that is. The registry is the new one in both cases. -/
def opened (b : Bench) (result : Except Fault Store) (r : Registry) (site : Site) :
    Except Fault Unit × Bench :=
  match result with
  | .error f => (.error f, { b with registry := r, site })
  | .ok s => (.ok (), { b with stores := s :: b.stores, registry := r, site })

/-- Opens a store with its parameters. -/
def create (b : Bench) (params : Except Fault StoreParameters) (r : Registry) :
    Except Fault Unit × Bench :=
  match params with
  | .error f => b.opened (.error f) r b.site
  | .ok p =>
    let (result, r, site) := b.site.create p r
    b.opened result r site

/-- Writes the events of a stem, numbered from `done` on. -/
def fill (b : Bench) (stem : String) (done : Nat) : Nat → (Nat × Option Fault) × Bench
  | 0 => ((done, none), b)
  | n + 1 =>
    match b.write (.new (stem ++ toString done)) with
    | (.error f, b) => ((done, some f), b)
    | (.ok (), b) => b.fill stem (done + 1) n

/-- Reads and commits at most `n` batches. -/
def drain (b : Bench) : (n : Nat) → (List (List String) × Option Fault) × Bench
  | 0 => (([], none), b)
  | n + 1 =>
    match b.nextBatch with
    | (.error f, b) => (([], some f), b)
    | (.ok none, b) => (([], none), b)
    | (.ok (some batch), b) =>
      let ids := batch.events.map Event.id
      match b.commit batch.token with
      | (.error f, b) => (([ids], some f), b)
      | (.ok (), b) =>
        let ((more, stop), b) := b.drain n
        ((ids :: more, stop), b)

/-- Performs a step. -/
def step (b : Bench) : StoreStep → StoreResult × Bench
  | .write e =>
    let (r, b) := b.write e
    (.done r, b)
  | .fill stem count =>
    let ((written, stop), b) := b.fill stem 0 count
    (.filled written stop, b)
  | .read slot =>
    match b.nextBatch with
    | (.ok (some batch), b) =>
      (.batch (.ok (some batch)),
        { b with slots := Named.insert slot (b.stores.length - 1, batch) b.slots })
    | (r, b) => (.batch r, b)
  | .commit slot =>
    match Named.get? b.slots slot with
    | none => (.noBatch, b)
    | some (age, batch) =>
      let b := { b with slots := Named.erase slot b.slots }
      let (r, b) := b.onOpened age (.ok ()) fun site s => s.commit site batch.token
      (.done r, b)
  | .drop slot =>
    match Named.get? b.slots slot with
    | none => (.noBatch, b)
    | some _ => (.done (.ok ()), { b with slots := Named.erase slot b.slots })
  | .drain =>
    let ((ids, stop), b) := b.drain maxBatches
    (.drained ids stop, b)
  | .refreshGauges =>
    let (r, b) := b.refreshGauges
    (.done r, b)
  | .close => (.done (.ok ()), b.close)
  | .metrics => (.samples b.samples, b)
  | .directory =>
    match b.store? with
    | some (.spool directory _) => (.directory (some directory), b)
    | _ => (.directory none, b)
  | .count =>
    match b.stores, b.site.database with
    | .table s :: _, some db =>
      let (r, db) := s.rowCount db
      (.count r, { b with site := { b.site with database := some db } })
    | _, _ => (.count (.ok 0), b)
  | .reopen params sameRegistry =>
    let (r, b) := b.create params (if sameRegistry then b.registry else [])
    (.done r, b)

end Bench

end AuditRelay.Scenario
