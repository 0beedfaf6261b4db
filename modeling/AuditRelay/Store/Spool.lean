import AuditRelay.Metrics.Counters
import AuditRelay.Store.Batch
import AuditRelay.Store.Disk
import AuditRelay.Store.Parameters
import AuditRelay.Store.Spool.Lines
import AuditRelay.Store.Spool.Names
import AuditRelay.Text.Timestamp

/-!
# AuditRelay.Store.Spool — a queue in a directory of files

Events are appended, one on a line, to the current event file, which gives way to a new one when it
has reached its size or has been read. A write is acknowledged when it has been forced out to the
device. Reading takes the oldest event file as one batch, and committing removes the file.

Damaged lines are first written to a dead-letter file; then the event file is replaced by its good
lines, so that a line is set aside once. The total size is counted along and is corrected when the
metrics are refreshed.
-/

namespace AuditRelay

/-- The state of an open spool. The directory itself is on the disk. -/
structure Spool where
  fileLimit : Nat
  totalLimit : Option Nat
  /-- The event file that the next write goes to. -/
  current : Option String
  /-- The greatest stamp given so far. -/
  highestStamp : Nat
  total : Nat
  counters : StoreCounters
  deriving DecidableEq, Repr

namespace Spool

def defaultFileLimit : Nat := 10 * 1024 * 1024

def sizeDescription : String := "Current total size of the backing store in bytes."

/-! ## Parts of the operations -/

/-- A stamp greater than all before, and not before the clock. Behind the largest stamp there is
none. -/
def newStamp (s : Spool) (d : Disk) : Except Fault Nat × Spool × Disk :=
  let (now, d) := d.now
  if s.highestStamp < maxStamp then
    let stamp := max now (s.highestStamp + 1)
    (.ok stamp, { s with highestStamp := stamp }, d)
  else (.error .stampsExhausted, s, d)

/-- Counts a refused call. -/
def failed {α : Type} (s : Spool) (op : FailurePoint) (cause : SystemFault) (d : Disk) :
    Except Fault α × Spool × Disk :=
  (.error (.io (.counted op) cause), { s with counters := s.counters.countError op }, d)

/-- The names of the event files among the entries: files, no directories and no links. -/
def eventFiles : Entries → List String
  | [] => []
  | (name, .file _ _) :: es => if isEventFile name then name :: eventFiles es else eventFiles es
  | _ :: es => eventFiles es

/-- The event files, oldest first. -/
def listFiles (d : Disk) : Except Fault (List String) × Disk :=
  match d.list with
  | (.ok es, d) => (.ok (eventFiles es), d)
  | (.error f, d) => (.error (.io .listDirectory f), d)

/-- The size of a file, zero if it cannot be found out. -/
def sizeOrZero (d : Disk) (name : String) : Nat × Disk :=
  match d.size name with
  | (.ok n, d) => (n, d)
  | (.error _, d) => (0, d)

/-- The sum of the sizes of files. -/
def sumSizes (d : Disk) : List String → Nat × Disk
  | [] => (0, d)
  | name :: names =>
    let (n, d) := sizeOrZero d name
    let (m, d) := sumSizes d names
    (n + m, d)

/-- A new event file's name. -/
def newEventFile (s : Spool) (d : Disk) : Except Fault String × Spool × Disk :=
  let (stamp, s, d) := s.newStamp d
  (stamp.map (fileName eventStem), s, d)

/-- The file that the next event goes to. -/
def target (s : Spool) (d : Disk) : Except Fault String × Spool × Disk :=
  match s.current with
  | none => s.newEventFile d
  | some name =>
    match d.size name with
    | (.ok n, d) => if n < s.fileLimit then (.ok name, s, d) else s.newEventFile d
    | (.error .notFound, d) => s.newEventFile d
    | (.error f, d) => s.failed .writeStat f d

/-- Appends a line and forces it out. -/
def writeLine (s : Spool) (d : Disk) (name : String) (line : Octets) :
    Except Fault Unit × Spool × Disk :=
  match d.openForWriting name false with
  | (.error f, d) => s.failed .writeOpen f d
  | (.ok h, d) =>
    match d.append h line with
    | (.error f, d) => s.failed .writeIo f d
    | (.ok (), d) =>
      match d.sync h with
      | (.error f, d) => s.failed .writeSync f d
      | (.ok (), d) =>
        match d.close h with
        | (.error f, d) => s.failed .writeClose f d
        | (.ok (), d) => (.ok (), s, d)

/-- Removes a file and takes its size off the total. -/
def removeFile (s : Spool) (d : Disk) (name : String) : Except Fault Unit × Spool × Disk :=
  let (n, d) := sizeOrZero d name
  match d.remove name with
  | (.error f, d) => s.failed .commitRemove f d
  | (.ok (), d) => (.ok (), { s with total := s.total - n }, d)

/-! ## Damaged lines -/

/-- Dead letters for damaged lines, each with the time of its own. -/
def letters (d : Disk) (sourceFile : String) (xs : List Damaged) : List DeadLetter × Disk :=
  (xs.mapIdx fun i x => x.letter (Text.timestamp (d.host.clock (d.readings + i))) sourceFile,
    { d with readings := d.readings + xs.length })

/-- Writes dead letters to a file of their own. -/
def writeLetters (d : Disk) (name : String) (ls : List DeadLetter) : Except Fault Unit × Disk :=
  match d.openForWriting name false with
  | (.error f, d) => (.error (.io .openDeadLetter f), d)
  | (.ok h, d) =>
    match d.append h (ls.flatMap DeadLetter.written) with
    | (.error f, d) => (.error (.io .writeDeadLetter f), d)
    | (.ok (), d) =>
      match d.sync h with
      | (.error f, d) => (.error (.io .syncDeadLetter f), d)
      | (.ok (), d) => (.ok (), d)

/-- Replaces the contents of a file: the new contents are forced out under another name, which is
then moved onto the file. -/
def replace (d : Disk) (name : String) (contents : Octets) : Except SystemFault Unit × Disk :=
  match d.openForWriting (tempName name) true with
  | (.error f, d) => (.error f, d)
  | (.ok h, d) =>
    match d.append h contents with
    | (.error f, d) => (.error f, d)
    | (.ok (), d) =>
      match d.sync h with
      | (.error f, d) => (.error f, d)
      | (.ok (), d) => d.rename (tempName name) name

/-- Sets the damaged lines of a file aside in a file with the given stamp. The file is left as it is
when they could not be written, or when it could not be replaced. -/
def setAside (s : Spool) (d : Disk) (stamp : Nat) (name : String) (ls : List DeadLetter)
    (size : Nat) (kept : Octets) : Spool × Disk :=
  match writeLetters d (fileName deadLetterStem stamp) ls with
  | (.error _, d) => ({ s with counters := s.counters.countError .deadLetterWriteFailed }, d)
  | (.ok (), d) =>
    let s := { s with counters := s.counters.countErrors .deadLetterWrite ls.length }
    match replace d name kept with
    | (.ok (), d) => ({ s with total := s.total - (size - kept.length) }, d)
    | (.error _, d) => ({ s with counters := s.counters.countError .deadLetterReplace }, d)

/-- The events of a file. Its damaged lines are counted and set aside. -/
def readFile (s : Spool) (d : Disk) (name : String) : Except Fault (List Event) × Spool × Disk :=
  match d.openForReading name with
  | (.error f, d) => s.failed .readOpen f d
  | (.ok h, d) =>
    match d.readAll h with
    | (.error f, d) => s.failed .readScan f d
    | (.ok contents, d) =>
      let sifted := sift (lines contents)
      if sifted.damaged.isEmpty then (.ok sifted.events, s, d)
      else
        let s := { s with
          counters := s.counters.countErrors .corruptedEvent sifted.damaged.length }
        let (ls, d) := letters d name sifted.damaged
        match s.newStamp d with
        | (.error f, s, d) => (.error f, s, d)
        | (.ok stamp, s, d) =>
          let (s, d) := s.setAside d stamp name ls contents.length sifted.kept
          (.ok sifted.events, s, d)

/-! ## Operations -/

/-- Opens a spool: creates its directory, registers its metrics, and takes up what is there. -/
def create (p : SpoolParameters) (r : Registry) (d : Disk) : Except Fault Spool × Registry × Disk :=
  let directory := p.directory.getD ""
  if directory.isEmpty then (.error (.invalidConfig .directoryMissing), r, d)
  else
    let fileLimit := p.maxFileSize.getD defaultFileLimit
    if fileLimit = 0 then (.error (.invalidConfig .fileSizeZero), r, d)
    else
      match d.makeDirectory directory with
      | (.error f, d) => (.error (.io .createDirectory f), r, d)
      | (.ok (), d) =>
        match StoreCounters.register r sizeDescription true with
        | (.error f, r) => (.error f, r, d)
        | (.ok counters, r) =>
          match listFiles d with
          | (.error f, d) => (.error f, r, d)
          | (.ok names, d) =>
            let (total, d) := sumSizes d names
            let highestStamp := (names.filterMap stamp?).foldl max 0
            (.ok ⟨fileLimit, p.maxTotalSize.filter (0 < ·), none, highestStamp, total, counters⟩,
              r, d)

/-- Appends an event to the current file, unless the total size has reached its limit. -/
def write (s : Spool) (d : Disk) (e : Event) : Except Fault Unit × Spool × Disk :=
  let line := e.written ++ [lineFeed]
  match s.target d with
  | (.error f, s, d) => (.error f, s, d)
  | (.ok name, s, d) =>
    let s := { s with current := some name }
    match s.totalLimit.filter (· ≤ s.total) with
    | some limit =>
      (.error (.storeFull s.total limit),
        { s with counters := s.counters.countError .writeFull }, d)
    | none =>
      match s.writeLine d name line with
      | (.error f, s, d) => (.error f, s, d)
      | (.ok (), s, d) =>
        (.ok (), { s with
          total := s.total + line.length
          counters := s.counters.countWrite }, d)

/-- The events of the first of the files that holds any. Files without events are removed. -/
def readFirst (s : Spool) (d : Disk) : List String → Except Fault (Option Batch) × Spool × Disk
  | [] => (.ok none, s, d)
  | name :: names =>
    let s := if s.current = some name then { s with current := none } else s
    match s.readFile d name with
    | (.error f, s, d) => (.error f, s, d)
    | (.ok [], s, d) =>
      match s.removeFile d name with
      | (.error f, s, d) => (.error f, s, d)
      | (.ok (), s, d) => s.readFirst d names
    | (.ok (e :: es), s, d) =>
      (.ok (some ⟨e :: es, .file name⟩),
        { s with counters := s.counters.countReads (e :: es).length }, d)

/-- The events of the oldest file. -/
def nextBatch (s : Spool) (d : Disk) : Except Fault (Option Batch) × Spool × Disk :=
  match listFiles d with
  | (.error f, d) => (.error f, s, d)
  | (.ok names, d) => s.readFirst d names

/-- Removes the file of a batch. -/
def commit (s : Spool) (d : Disk) (name : String) : Except Fault Unit × Spool × Disk :=
  s.removeFile d name

/-- Corrects the total size and sets the gauges. -/
def refreshGauges (s : Spool) (d : Disk) : Except Fault Unit × Spool × Disk :=
  match listFiles d with
  | (.error f, d) => (.error f, s, d)
  | (.ok names, d) =>
    let (total, d) := sumSizes d names
    (.ok (), { s with
      total
      counters := (s.counters.setSize total).setFiles names.length }, d)

/-- Lets go of the current file. -/
def close (s : Spool) : Spool :=
  { s with current := none }

end Spool

end AuditRelay
