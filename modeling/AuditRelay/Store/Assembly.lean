import AuditRelay.Store

/-!
# AuditRelay.Store.Assembly — from a spec to a store

The library opens the kinds of store that it brings. A host may add kinds of its own under a name;
they take precedence over the library's kind of that name.
-/

namespace AuditRelay

/-- A host's own way to open a store. -/
abbrev Constructor := Json → Registry → Except Fault Store × Registry

namespace Site

/-- Opens a spool. -/
def createSpool (site : Site) (p : SpoolParameters) (r : Registry) :
    Except Fault Store × Registry × Site :=
  let directory := p.directory.getD ""
  let (result, r, d) := Spool.create p r (site.disk directory)
  (result.map (.spool directory), r, site.withDisk d)

/-- Opens a table store, for which there must be a database. -/
def createTable (site : Site) (p : TableParameters) (r : Registry) :
    Except Fault Store × Registry × Site :=
  match site.database with
  | none => (.error (.invalidConfig .poolMissing), r, site)
  | some db =>
    let (result, r, db) := TableStore.create p r db
    (result.map .table, r, { site with database := some db })

/-- Opens a store of a kind that the library brings. -/
def create (site : Site) (p : StoreParameters) (r : Registry) :
    Except Fault Store × Registry × Site :=
  match p with
  | .memory p =>
    let (result, r) := MemoryStore.create p r
    (result.map .memory, r, site)
  | .file p => site.createSpool p r
  | .sql p => site.createTable p r

end Site

/-- The kinds of store that a host adds. -/
abbrev Assembly := Named Constructor

namespace Assembly

/-- Opens the store of a spec. -/
def build (own : Assembly) (spec : StoreSpec) (r : Registry) (site : Site) :
    Except Fault Store × Registry × Site :=
  match Named.get? own spec.kind with
  | some construct =>
    let (result, r) := construct spec.params r
    (result, r, site)
  | none =>
    match StoreParameters.ofSpec spec with
    | .error f => (.error f, r, site)
    | .ok p => site.create p r

/-- The names of the added kinds, as a text. -/
def describe (own : Assembly) : String :=
  "BackingStoreFactories \x7b custom: [" ++
    ", ".intercalate (own.map fun kind => Text.quoted kind.1) ++ "] \x7d"

end Assembly

end AuditRelay
