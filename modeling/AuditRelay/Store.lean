import AuditRelay.Store.Memory
import AuditRelay.Store.Spool
import AuditRelay.Store.Table

/-!
# AuditRelay.Store — one store of any kind

A relay buffers its events in one store; which kind it is, the host decides. `Site` is what lies
outside of a store and outlives it: the directories, the clock and the database.
-/

namespace AuditRelay

/-- What stores keep their events in. -/
structure Site where
  root : Node
  host : Host
  calls : Nat
  readings : Nat
  database : Option Database

namespace Site

/-- The directory at a path. -/
def disk (site : Site) (path : String) : Disk :=
  .ofPath site.root path site.host site.calls site.readings

/-- The site after calls on a directory. -/
def withDisk (site : Site) (d : Disk) : Site :=
  { site with root := d.root, calls := d.calls, readings := d.readings }

end Site

/-- A store that the relay buffers its events in. -/
inductive Store where
  | memory (s : MemoryStore)
  | spool (directory : String) (s : Spool)
  | table (s : TableStore)
  deriving DecidableEq, Repr

namespace Store

/-- What a store counts. -/
def counters : Store → StoreCounters
  | .memory s => s.counters
  | .spool _ s => s.counters
  | .table s => s.counters

/-- Performs an operation of a spool on its directory. -/
def onDisk {α : Type} (site : Site) (directory : String) (act : Disk → α × Spool × Disk) :
    α × Store × Site :=
  let (a, s, d) := act (site.disk directory)
  (a, .spool directory s, site.withDisk d)

/-- Performs an operation of a table store; a site without a database answers as a closed pool. -/
def onDatabase {α : Type} (site : Site) (s : TableStore)
    (act : Database → Except Fault α × TableStore × Database) : Except Fault α × Store × Site :=
  match site.database with
  | none => (.error (.database .poolClosed), .table s, site)
  | some db =>
    let (a, s, db) := act db
    (a, .table s, { site with database := some db })

/-- Puts an event behind all others. -/
def write (site : Site) (e : Event) : Store → Except Fault Unit × Store × Site
  | .memory s =>
    let (r, s) := s.write e
    (r, .memory s, site)
  | .spool directory s => onDisk site directory (s.write · e)
  | .table s => onDatabase site s (s.write · e)

/-- The oldest events. -/
def nextBatch (site : Site) : Store → Except Fault (Option Batch) × Store × Site
  | .memory s =>
    let (b, s) := s.nextBatch
    (.ok b, .memory s, site)
  | .spool directory s => onDisk site directory s.nextBatch
  | .table s => onDatabase site s s.nextBatch

/-- Takes the events of a token out. A token of another kind of store takes nothing out. -/
def commit (site : Site) (token : Token) : Store → Except Fault Unit × Store × Site
  | .memory s =>
    match token with
    | .oldest count => (.ok (), .memory (s.commit count), site)
    | _ => (.ok (), .memory s, site)
  | .spool directory s =>
    match token with
    | .file name => onDisk site directory (s.commit · name)
    | _ => (.ok (), .spool directory s, site)
  | .table s =>
    match token with
    | .rows ids => onDatabase site s (s.commit · ids)
    | _ => (.ok (), .table s, site)

/-- Brings the gauges up to date. -/
def refreshGauges (site : Site) : Store → Except Fault Unit × Store × Site
  | .memory s => (.ok (), .memory s.refreshGauges, site)
  | .spool directory s => onDisk site directory s.refreshGauges
  | .table s => onDatabase site s s.refreshGauges

/-- Lets go of what is open. Files and rows stay. -/
def close : Store → Store
  | .memory s => .memory s
  | .spool directory s => .spool directory s.close
  | .table s => .table s

end Store

end AuditRelay
