import AuditRelay.Store.Volume.Walk

/-!
# AuditRelay.Store.Disk — the directory of a spool, as the operating system shows it

A spool sees one directory of a volume, a clock, and calls that may be refused. `Host` says for each
call whether it is refused and for each reading of the clock what it shows, so that a statement over
every host is a statement over all failures and all clocks, also those that go backwards. `Disk`
joins the two with the number of calls and readings so far.

A call has its natural faults too: a name that is missing or too long, a directory where a file
should be, a link that leads in circles, to a device that takes nothing (`full`) or to one that
cannot be forced out (`sink`).

The directory is reached by its path once, when the disk is set up; nothing that a spool does to its
files moves the directory itself.
-/

namespace AuditRelay

/-- A refused call. A refused write may have taken some octets before. -/
structure Refusal where
  cause : SystemFault
  taken : Nat

/-- What the host decides: which calls it refuses, what its clock shows in nanoseconds, and how many
octets a path may have. -/
structure Host where
  refuse : Nat → Option Refusal
  clock : Nat → Nat
  pathLimit : Nat

/-- A directory that has been reached. -/
structure Reached where
  /-- Its names from the root of the volume. -/
  names : List String
  /-- How many links may still be followed behind it. -/
  links : Nat
  deriving DecidableEq, Repr

/-- A directory in its volume, and its host. -/
structure Disk where
  root : Node
  /-- The directory, or why it cannot be reached. -/
  directory : Except SystemFault Reached
  /-- How many octets a name may have for the length of its path. -/
  room : Int
  host : Host
  calls : Nat
  readings : Nat

/-- An opened file. -/
inductive Handle where
  | file (names : List String)
  | directory
  | sink
  | full
  deriving DecidableEq, Repr

namespace Disk

/-- The size that a directory has as a file. -/
def directorySize : Nat := 4096

/-- Mode of a directory that only its owner may enter. -/
def privateDirectory : Nat := 0o700

/-- Mode of a file that only its owner may read and write. -/
def privateFile : Nat := 0o600

/-- Makes a call: whether it is refused. -/
def call (d : Disk) : Option Refusal × Disk :=
  (d.host.refuse d.calls, { d with calls := d.calls + 1 })

/-- Reads the clock. -/
def now (d : Disk) : Nat × Disk :=
  (d.host.clock d.readings, { d with readings := d.readings + 1 })

/-! ## The directory and its entries -/

/-- The directory at a path. -/
def reach (limit : Nat) (root : Node) (path : String) : Except SystemFault Reached :=
  match Volume.pathFault? limit path with
  | some f => .error f
  | none =>
    match Volume.locate root .thing (Volume.parts path) with
    | .error f => .error f
    | .ok ⟨names, some (.directory _ _), links⟩ => .ok ⟨names, links⟩
    | .ok ⟨_, some _, _⟩ => .error .notADirectory
    | .ok ⟨_, none, _⟩ => .error .notFound

/-- Octets of the path of an entry before its name. -/
def lead (path : String) : Nat :=
  path.utf8ByteSize + if path.toList.getLast? = some '/' then 0 else 1

/-- The disk of the directory at a path. -/
def ofPath (root : Node) (path : String) (host : Host) (calls readings : Nat) : Disk :=
  ⟨root, reach host.pathLimit root path, (host.pathLimit : Int) - lead path, host, calls, readings⟩

/-- The entries of the directory, or why there are none. -/
def entries (d : Disk) : Except SystemFault Entries :=
  match d.directory with
  | .error f => .error f
  | .ok r =>
    match Volume.find? d.root r.names with
    | some (.directory es _) => .ok es
    | some _ => .error .notADirectory
    | none => .error .notFound

/-- The directory with other entries. -/
def withEntries (d : Disk) (es : Entries) : Disk :=
  match d.directory with
  | .error _ => d
  | .ok r =>
    match Volume.find? d.root r.names with
    | some (.directory _ mode) => { d with root := Volume.put (.directory es mode) d.root r.names }
    | _ => d

/-- Where a name of the directory leads. -/
def spot (d : Disk) (aim : Volume.Aim) (name : String) : Except SystemFault Volume.Spot :=
  if d.room < name.utf8ByteSize then .error .nameTooLong
  else
    match d.directory with
    | .error f => .error f
    | .ok r => Volume.walkFrom d.root aim r.links r.names [name]

/-- Puts a file under names. -/
def putFile (d : Disk) (names : List String) (contents : Octets) (mode : Nat) : Disk :=
  { d with root := Volume.put (.file contents mode) d.root names }

/-- Puts octets behind those of a file. -/
def extend (d : Disk) (names : List String) (bs : Octets) : Disk :=
  match Volume.find? d.root names with
  | some (.file contents mode) => d.putFile names (contents ++ bs) mode
  | _ => d

/-! ## Calls -/

/-- A call that either is refused or acts. -/
def perform {α : Type} (d : Disk) (act : Disk → Except SystemFault α × Disk) :
    Except SystemFault α × Disk :=
  match d.call with
  | (some r, d) => (.error r.cause, d)
  | (none, d) => act d

/-- Creates the directory at a path, open to its owner only, unless it is there. Those that are
missing on the way are created too. -/
def makeDirectory (d : Disk) (path : String) : Except SystemFault Unit × Disk :=
  d.perform fun d =>
    let (result, root) := Volume.createDirectories privateDirectory d.host.pathLimit d.root path
    (result, { d with root, directory := reach d.host.pathLimit root path })

/-- Lists the directory. -/
def list (d : Disk) : Except SystemFault Entries × Disk :=
  d.perform fun d => (d.entries, d)

/-- The size of what a name leads to. -/
def size (d : Disk) (name : String) : Except SystemFault Nat × Disk :=
  d.perform fun d =>
    match d.spot .thing name with
    | .error f => (.error f, d)
    | .ok s =>
      match s.node with
      | none => (.error .notFound, d)
      | some (.file contents _) => (.ok contents.length, d)
      | some (.directory _ _) => (.ok directorySize, d)
      | some _ => (.ok 0, d)

/-- Opens a file for writing and creates it if it is not there. -/
def openForWriting (d : Disk) (name : String) (truncate : Bool) :
    Except SystemFault Handle × Disk :=
  d.perform fun d =>
    match d.spot .file name with
    | .error f => (.error f, d)
    | .ok s =>
      match s.node with
      | none => (.ok (.file s.names), d.putFile s.names [] privateFile)
      | some (.file _ mode) =>
        (.ok (.file s.names), if truncate then d.putFile s.names [] mode else d)
      | some (.directory _ _) => (.error .isADirectory, d)
      | some .sink => (.ok .sink, d)
      | some .full => (.ok .full, d)
      | some (.link _) => (.error .tooManyLinks, d)

/-- Opens a file for reading. -/
def openForReading (d : Disk) (name : String) : Except SystemFault Handle × Disk :=
  d.perform fun d =>
    match d.spot .thing name with
    | .error f => (.error f, d)
    | .ok s =>
      match s.node with
      | none => (.error .notFound, d)
      | some (.file _ _) => (.ok (.file s.names), d)
      | some (.directory _ _) => (.ok .directory, d)
      | some .sink => (.ok .sink, d)
      | some .full => (.ok .full, d)
      | some (.link _) => (.error .tooManyLinks, d)

/-- Appends octets to an opened file. A refused call may have appended the first of them. -/
def append (d : Disk) (h : Handle) (bs : Octets) : Except SystemFault Unit × Disk :=
  match d.call with
  | (some r, d) =>
    match h with
    | .file names => (.error r.cause, d.extend names (bs.take r.taken))
    | _ => (.error r.cause, d)
  | (none, d) =>
    match h with
    | .file names => (.ok (), d.extend names bs)
    | .sink => (.ok (), d)
    | .full => if bs.isEmpty then (.ok (), d) else (.error .noSpace, d)
    | .directory => (.error .isADirectory, d)

/-- Forces what was written out to the device. -/
def sync (d : Disk) (h : Handle) : Except SystemFault Unit × Disk :=
  d.perform fun d =>
    match h with
    | .sink | .full => (.error .invalidArgument, d)
    | _ => (.ok (), d)

/-- Closes an opened file. -/
def close (d : Disk) (_ : Handle) : Except SystemFault Unit × Disk :=
  d.perform fun d => (.ok (), d)

/-- Reads an opened file. -/
def readAll (d : Disk) (h : Handle) : Except SystemFault Octets × Disk :=
  d.perform fun d =>
    match h with
    | .file names =>
      match Volume.find? d.root names with
      | some (.file contents _) => (.ok contents, d)
      | _ => (.ok [], d)
    | .directory => (.error .isADirectory, d)
    | .sink | .full => (.ok [], d)

/-- Moves an entry that is no directory onto another name. -/
def rename (d : Disk) (source destination : String) : Except SystemFault Unit × Disk :=
  d.perform fun d =>
    match d.spot .entry source, d.spot .entry destination, d.entries with
    | .error f, _, _ | _, .error f, _ | _, _, .error f => (.error f, d)
    | .ok s, .ok t, .ok es =>
      match s.node, t.node with
      | none, _ => (.error .notFound, d)
      | some _, some (.directory _ _) => (.error .isADirectory, d)
      | some node, _ =>
        (.ok (), d.withEntries (Named.insert destination node (Named.erase source es)))

/-- Removes a name that is no directory. -/
def remove (d : Disk) (name : String) : Except SystemFault Unit × Disk :=
  d.perform fun d =>
    match d.spot .entry name, d.entries with
    | .error f, _ | _, .error f => (.error f, d)
    | .ok s, .ok es =>
      match s.node with
      | none => (.error .notFound, d)
      | some (.directory _ _) => (.error .isADirectory, d)
      | some _ => (.ok (), d.withEntries (Named.erase name es))

end Disk

end AuditRelay
