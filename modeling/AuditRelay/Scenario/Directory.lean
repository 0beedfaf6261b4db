import AuditRelay.Scenario.Stamps
import AuditRelay.Store

/-!
# AuditRelay.Scenario.Directory — the directory that a script watches

A script may change the directory of a spool from outside, between the operations of the store, and
looks at it after every step. Both work on the tree of the volume directly, so they are seen by the
store but never refused by its host.
-/

namespace AuditRelay.Scenario

/-! ## The directory -/

/-- The place in the tree that a script may use. -/
def scratch : String := "$DIR"

/-- By how many octets the path that this name stands for is longer than the name. -/
def scratchExcess : Nat := 11

/-- The watched directory. -/
def watched : List String := [scratch, "buf"]

/-- A tree with the empty place for the script, two devices, and directories that every system
has. -/
def emptyRoot : Node :=
  .directory [(scratch, .directory [] Disk.privateDirectory),
    ("dev", .directory [("full", .full), ("null", .sink)] 0o755), ("etc", .directory [] 0o755),
    ("tmp", .directory [] 0o777), ("usr", .directory [] 0o755), ("var", .directory [] 0o755)] 0o755

/-- A clock that moves on with every reading, so that no stamp comes twice. -/
def clock (reading : Nat) : Nat :=
  1700000000000000000 + 1000000 * reading

/-- Surroundings in which no call is refused. -/
def site (database : Option Database) : Site :=
  ⟨emptyRoot, ⟨fun _ => none, clock, Volume.maxPath - scratchExcess⟩, 0, 0, database⟩

/-- The entries of the watched directory, none if it cannot be read. -/
def entries (root : Node) : Entries :=
  match Volume.find? root watched with
  | some (.directory es _) => es
  | _ => []

/-! ## Changes from outside -/

/-- A change that somebody else makes. Names are paths from the watched directory. -/
inductive FileStep where
  | put (name : String) (contents : Octets)
  | append (name : String) (contents : Octets)
  | truncate (name : String) (size : Nat)
  | rename (name destination : String)
  | remove (name : String)
  | makeDirectory (name : String)
  | removeDirectory (name : String)
  | link (name target : String)
  | removeRoot
  | makeRoot
  | rootFile
  | removeRootFile

/-- Mode of the files that are put into the directory. -/
def publicFile : Nat := 0o644

/-- Mode of the directories that are put into it. -/
def publicDirectory : Nat := 0o755

/-- Contents cut or filled up with zeros to a size. -/
def resized (size : Nat) (contents : Octets) : Octets :=
  contents.take size ++ List.replicate (size - contents.length) 0

/-- Where a name leads. -/
def spot (root : Node) (aim : Volume.Aim) (name : String) : Option Volume.Spot :=
  if name.toList.any (· == '\x00') then none
  else (Volume.walkFrom root aim Volume.maxLinks watched (Volume.parts name)).toOption

/-- Where the entry of a name is; a name that ends in dots stands for no entry of its own. -/
def entrySpot (root : Node) (name : String) : Option Volume.Spot :=
  match (Volume.parts name).getLast? with
  | some "." | some ".." => none
  | _ => spot root .entry name

/-- Whether something can be moved onto what stands under another name. -/
def canReplace : Node → Option Node → Bool
  | _, none => true
  | .directory _ _, some (.directory es _) => es.isEmpty
  | .directory _ _, some _ | _, some (.directory _ _) => false
  | _, some _ => true

/-- Writes into an opened file, or to a device. -/
def withContents (root : Node) (s : Volume.Spot) (contents : Octets)
    (written : Octets → Nat → Node) : Option Node :=
  match s.node with
  | some (.file old mode) => some (Volume.put (written old mode) root s.names)
  | some .sink => some root
  | some .full => if contents.isEmpty then some root else none
  | _ => none

/-- The tree after a change, nothing if it is impossible. -/
def FileStep.apply (root : Node) : FileStep → Option Node
  | .put name contents =>
    (spot root .file name).bind fun s =>
      match s.node with
      | none => some (Volume.put (.file contents publicFile) root s.names)
      | some _ => withContents root s contents fun _ _ => .file contents publicFile
  | .append name contents =>
    (spot root .thing name).bind fun s =>
      withContents root s contents fun old mode => .file (old ++ contents) mode
  | .truncate name size =>
    (spot root .thing name).bind fun s =>
      match s.node with
      | some (.file old mode) => some (Volume.put (.file (resized size old) mode) root s.names)
      | _ => none
  | .rename name destination =>
    (entrySpot root name).bind fun s =>
      (entrySpot root destination).bind fun t =>
        match s.node with
        | none => none
        | some node =>
          if s.names = t.names then some root
          else if s.names.isPrefixOf t.names || !canReplace node t.node then none
          else some (Volume.put node (Volume.erase root s.names) t.names)
  | .remove name =>
    (entrySpot root name).bind fun s =>
      match s.node with
      | none | some (.directory _ _) => none
      | some _ => some (Volume.erase root s.names)
  | .makeDirectory name =>
    if name.toList.any (· == '\x00') then none
    else (Volume.createDirectory publicDirectory root (watched ++ Volume.parts name)).toOption
  | .removeDirectory name =>
    (entrySpot root name).bind fun s =>
      match s.node with
      | some (.directory [] _) => some (Volume.erase root s.names)
      | _ => none
  | .link name target =>
    (entrySpot root name).bind fun s =>
      match s.node with
      | some (.directory _ _) => none
      | _ =>
        if target = "" || (Volume.pathFault? Volume.maxPath target).isSome then none
        else some (Volume.put (.link target) root s.names)
  | .removeRoot =>
    match Volume.find? root watched with
    | some (.directory _ _) => some (Volume.erase root watched)
    | _ => none
  | .makeRoot =>
    match Volume.find? root watched with
    | none => some (Volume.put (.directory [] publicDirectory) root watched)
    | some _ => none
  | .rootFile => some (Volume.put (.file [] publicFile) root watched)
  | .removeRootFile =>
    match Volume.find? root watched with
    | none | some (.directory _ _) => none
    | some _ => some (Volume.erase root watched)

/-! ## What a script sees -/

/-- Whether a file holds dead letters. -/
def isDeadLetterFile (name : String) : Bool :=
  Spool.deadLetterStem.toList.isPrefixOf name.toList &&
    Spool.fileSuffix.toList.isSuffixOf name.toList

/-- An entry as a listing shows it. Dead letters hold times, so their size is not shown. -/
inductive Listed where
  | size (n : Nat)
  | deadLetters
  | directory
  | link
  deriving DecidableEq, Repr

/-- The listing of a directory. -/
def listing (seen : Stamps) (es : Entries) : List (String × Listed) :=
  es.map fun (name, node) =>
    (seen.shown name, match node with
      | .file contents _ => if isDeadLetterFile name then .deadLetters else .size contents.length
      | .directory _ _ => .directory
      | _ => .link)

/-- Permission bits in octal, of the directory and of its entries. -/
def modes (seen : Stamps) (root : Node) : List (String × String) :=
  match Volume.find? root watched with
  | some (.directory es mode) =>
    (".", octal mode) :: es.map fun (name, node) =>
      (seen.shown name, match node with
        | .file _ mode | .directory _ mode => octal mode
        | _ => octal 0o777)
  | _ => []
where
  octal (mode : Nat) : String := String.ofList (Nat.toDigits 8 mode)

/-- The contents of an entry as a dump shows them. -/
inductive Dumped where
  | text (s : String)
  | octets (bs : Octets)
  | directory
  | link
  deriving DecidableEq, Repr

/-- What comes before the time of a dead letter. -/
def timeLead : List Char := "\x7b\"timestamp\":\"".toList

/-- What stands between the time of a dead letter and the name of its file. -/
def sourceLead : List Char := "\",\"source_file\":\"".toList

/-- Length of a written time. -/
def timeLength : Nat := 30

/-- A line of a dead-letter file without its time and with the name of its file as shown. -/
def maskedLine (seen : Stamps) (line : List Char) : List Char :=
  let behind := line.drop (timeLead.length + timeLength)
  if timeLead.isPrefixOf line && sourceLead.isPrefixOf behind then
    let source := behind.drop sourceLead.length
    timeLead ++ "<ts>".toList ++ sourceLead ++
      (seen.shown (String.ofList (source.takeWhile (· ≠ '"')))).toList ++
      source.dropWhile (· ≠ '"')
  else line

/-- The lines of a dead-letter file, masked. -/
def masked (seen : Stamps) (s : String) : String :=
  "\n".intercalate ((s.splitOn "\n").map fun line => String.ofList (maskedLine seen line.toList))

/-- The contents of a directory. -/
def dump (seen : Stamps) (es : Entries) : List (String × Dumped) :=
  es.map fun (name, node) =>
    (seen.shown name, match node with
      | .file contents _ =>
        match Text.ofOctets? contents with
        | some s => .text (if isDeadLetterFile name then masked seen s else s)
        | none => .octets contents
      | .directory _ _ => .directory
      | _ => .link)

end AuditRelay.Scenario
