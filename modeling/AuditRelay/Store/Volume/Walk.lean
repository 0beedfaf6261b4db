import AuditRelay.Fault
import AuditRelay.Store.Volume

/-!
# AuditRelay.Store.Volume.Walk — following a path

A path is walked part by part. Empty parts and single dots say nothing, a double dot goes back, and
a link is replaced by its target; everything that is passed must be a directory, the dots included.
How the last part is taken depends on what the walk is for (`Aim`). The walk ends after at most as
many links as it may follow (`maxLinks`).

`createDirectories` creates a directory with all that are missing on the way to it. A path that
ends in a single dot names nothing that could be created.
-/

namespace AuditRelay.Volume

/-- The longest name of an entry, in octets. -/
def maxName : Nat := 255

/-- The longest path, in octets. -/
def maxPath : Nat := 4095

/-- How many links are followed at most. -/
def maxLinks : Nat := 40

/-- The parts of a path. An empty part stands at the end if the path ends in a slash. -/
def parts (path : String) : List String :=
  let ps := (path.toList.splitOn '/').map String.ofList
  ps.filter (· ≠ "") ++ if ps.getLast? = some "" then [""] else []

/-- What the last part of a path is taken for. -/
inductive Aim where
  /-- For what it leads to. -/
  | thing
  /-- For a file that it leads to and that is created if it is missing. -/
  | file
  /-- For the entry itself, which may be a link. -/
  | entry
  deriving DecidableEq, Repr

/-- Where a path leads. If nothing is there, all names but the last are those of a directory. -/
structure Spot where
  names : List String
  node : Option Node
  /-- How many links might still have been followed. -/
  links : Nat

/-- Walks on with the parts of a path. The walk has come to `node`, whose names are given last
first; `follow` walks on from the target of a link. -/
def walkBy (root : Node) (aim : Aim) (links : Nat)
    (follow : List String → Node → List String → Except SystemFault Spot) (up : List String)
    (node : Node) : List String → Except SystemFault Spot
  | [] => .ok ⟨up.reverse, some node, links⟩
  | part :: rest =>
    match node with
    | .directory es mode =>
      if part = "" || part = "." then walkBy root aim links follow up (.directory es mode) rest
      else if part = ".." then
        match find? root up.tail.reverse with
        | some above => walkBy root aim links follow up.tail above rest
        | none => .error .notFound
      else if aim = .file && rest = [""] then .error .isADirectory
      else if maxName < part.utf8ByteSize then .error .nameTooLong
      else
        match Named.get? es part with
        | none =>
          if rest.isEmpty then .ok ⟨(part :: up).reverse, none, links⟩ else .error .notFound
        | some (.link target) =>
          if aim = .entry && rest.isEmpty then
            .ok ⟨(part :: up).reverse, some (.link target), links⟩
          else if target.toList.head? = some '/' then follow [] root (parts target ++ rest)
          else follow up (.directory es mode) (parts target ++ rest)
        | some below => walkBy root aim links follow (part :: up) below rest
    | _ => .error .notADirectory

/-- Walks on with the parts of a path and follows at most so many links. -/
def walk (root : Node) (aim : Aim) :
    (links : Nat) → List String → Node → List String → Except SystemFault Spot
  | 0 => walkBy root aim 0 fun _ _ _ => .error .tooManyLinks
  | links + 1 => walkBy root aim (links + 1) (walk root aim links)

/-- Walks from what stands under names. -/
def walkFrom (root : Node) (aim : Aim) (links : Nat) (names ps : List String) :
    Except SystemFault Spot :=
  match find? root names with
  | some node => walk root aim links names.reverse node ps
  | none => .error .notFound

/-- Walks from the root. -/
def locate (root : Node) (aim : Aim) (ps : List String) : Except SystemFault Spot :=
  walk root aim maxLinks [] root ps

/-- Why a path cannot even be asked for. -/
def pathFault? (limit : Nat) (path : String) : Option SystemFault :=
  if path.toList.any (· == '\x00') then some .nulInName
  else if limit < path.utf8ByteSize then some .nameTooLong
  else none

/-- Whether parts lead to a directory. -/
def isDirectory (root : Node) (ps : List String) : Bool :=
  match locate root .thing ps with
  | .ok ⟨_, some (.directory _ _), _⟩ => true
  | _ => false

/-- Creates one directory. -/
def createDirectory (mode : Nat) (root : Node) (ps : List String) : Except SystemFault Node :=
  let ps := ps.filter (· ≠ "")
  let last := ps.getLast?
  if last = some "." || last = some ".." then
    (locate root .thing (ps.dropLast ++ [""])).bind fun _ => .error .alreadyExists
  else
    match locate root .entry ps with
    | .error f => .error f
    | .ok ⟨_, some _, _⟩ => .error .alreadyExists
    | .ok ⟨names, none, _⟩ => .ok (put (.directory [] mode) root names)

/-- Creates a directory. If one is missing on the way to it, `before` is asked to create that. -/
def createAfter (mode : Nat) (before : Node → Except SystemFault Unit × Node) (root : Node)
    (ps : List String) : Except SystemFault Unit × Node :=
  match createDirectory mode root ps with
  | .ok root => (.ok (), root)
  | .error .notFound =>
    match before root with
    | (.error f, root) => (.error f, root)
    | (.ok (), root) =>
      match createDirectory mode root ps with
      | .ok root => (.ok (), root)
      | .error f => (if isDirectory root ps then .ok () else .error f, root)
  | .error f => (if isDirectory root ps then .ok () else .error f, root)

/-- Creates the directory whose parts are given last first, after those on the way to it. -/
def createWay (mode : Nat) : List String → Node → Except SystemFault Unit × Node
  | [], root => (.ok (), root)
  | part :: before, root =>
    createAfter mode (createWay mode before) root (part :: before).reverse

/-- Creates the directory at a path, after those on the way to it. -/
def createDirectories (mode limit : Nat) (root : Node) (path : String) :
    Except SystemFault Unit × Node :=
  match pathFault? limit path with
  | some f => (.error f, root)
  | none =>
    let ps := parts path
    let named := ps.filter fun p => p ≠ "" && p ≠ "."
    createAfter mode (createWay mode named.dropLast.reverse) root ps

end AuditRelay.Volume
