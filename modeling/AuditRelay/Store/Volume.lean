import AuditRelay.Named
import AuditRelay.Text.Utf8

/-!
# AuditRelay.Store.Volume — a tree of files and directories

A volume is the tree below a root directory. What stands in it is told by the names on the way down
from the root: `find?` looks it up, `put` and `erase` change it. Names say nothing about links;
those are followed by a walk (`Store.Volume.Walk`).

Main statements: `find?_append` (a long way is two short ones), `find?_put` (what has been put is
there).
-/

namespace AuditRelay

/-- What stands under a name. -/
inductive Node where
  | file (contents : Octets) (mode : Nat)
  | directory (entries : List (String × Node)) (mode : Nat)
  | link (target : String)
  /-- A device that swallows what is written. -/
  | sink
  /-- A device without room. -/
  | full
  deriving Inhabited

/-- The entries of a directory. -/
abbrev Entries := Named Node

namespace Volume

/-- What stands under names. -/
def find? : Node → List String → Option Node
  | node, [] => some node
  | .directory es _, name :: names =>
    match Named.get? es name with
    | some node => find? node names
    | none => none
  | _, _ :: _ => none

/-- The tree with something else under names. The directories on the way must be there. -/
def put (new : Node) : Node → List String → Node
  | _, [] => new
  | .directory es mode, name :: names =>
    match Named.get? es name, names with
    | some node, _ => .directory (Named.insert name (put new node names) es) mode
    | none, [] => .directory (Named.insert name new es) mode
    | none, _ => .directory es mode
  | node, _ :: _ => node

/-- The tree with nothing under names. -/
def erase : Node → List String → Node
  | .directory es mode, [name] => .directory (Named.erase name es) mode
  | .directory es mode, name :: names =>
    match Named.get? es name with
    | some node => .directory (Named.insert name (erase node names) es) mode
    | none => .directory es mode
  | node, _ => node

theorem find?_append (root : Node) (xs ys : List String) :
    find? root (xs ++ ys) = (find? root xs).bind (find? · ys) := by
  induction xs generalizing root with
  | nil => simp [find?]
  | cons name xs ih =>
    cases root <;> simp only [List.cons_append, find?, Option.bind_none]
    split <;> simp_all

theorem find?_put {new root node : Node} {names : List String} (h : find? root names = some node) :
    find? (put new root names) names = some new := by
  induction names generalizing root with
  | nil => simp [put, find?]
  | cons name names ih =>
    cases root <;> simp only [find?] at h <;> try contradiction
    split at h <;> simp_all [put, find?, Named.get?_insert_self]

end Volume

end AuditRelay
