import AuditRelay.Store.Spool.Names

/-!
# AuditRelay.Scenario.Stamps — names that do not depend on the clock

A script names the files of a spool before their stamps are known. Stamps that come from the clock
are numbered in the order in which listings show them, and `<t1>` stands for the first of them. A
stamp comes from the clock if it has twenty digits and lies in the range of present times; all
others are written as they are.
-/

namespace AuditRelay.Scenario

/-- The stamps that have been seen, first to last. -/
abbrev Stamps := List Nat

namespace Stamps

def digits : Nat := 20

/-- Whether a stamp comes from the clock. -/
def fromClock (stamp : Nat) : Bool :=
  Nat.pow 10 18 ≤ stamp && stamp ≤ 4 * Nat.pow 10 18

/-- The stem and the stamp of a name that has both. -/
def split? (name : String) : Option (String × Nat) :=
  let cs := name.toList
  if !Spool.fileSuffix.toList.isSuffixOf cs then none
  else
    let body := cs.take (cs.length - Spool.fileSuffix.length)
    let stem := String.ofList (body.take (body.length - digits))
    let shown := body.drop (body.length - digits)
    if (stem = Spool.eventStem || stem = Spool.deadLetterStem) && shown.length = digits then
      match Text.digits? shown with
      | some stamp => if fromClock stamp then some (stem, stamp) else none
      | none => none
    else none

/-- Takes note of the names of a listing. -/
def see (seen : Stamps) (names : List String) : Stamps :=
  let new := (names.filterMap split?).map Prod.snd |>.mergeSort (· ≤ ·)
  new.foldl (fun seen stamp => if stamp ∈ seen then seen else seen ++ [stamp]) seen

/-- A name as the script sees it. -/
def shown (seen : Stamps) (name : String) : String :=
  match split? name with
  | none => name
  | some (stem, stamp) =>
    match seen.idxOf? stamp with
    | none => name
    | some i => stem ++ "<t" ++ toString (i + 1) ++ ">" ++ Spool.fileSuffix

/-- The stamp that stands at the beginning of a text as `<t1>` does, and what follows it. -/
def reference? (seen : Stamps) (cs : List Char) : Option (Nat × List Char) :=
  match cs with
  | '<' :: 't' :: r =>
    match Text.digits? (r.takeWhile Char.isDigit), r.dropWhile Char.isDigit with
    | some (n + 1), '>' :: r => (seen[n]?).map (·, r)
    | _, _ => none
  | _ => none

/-- A name that the script uses, with its references replaced. -/
def resolve (seen : Stamps) (name : String) : String :=
  String.ofList (go name.toList name.length)
where
  go (cs : List Char) : Nat → List Char
    | 0 => cs
    | n + 1 =>
      match reference? seen cs, cs with
      | some (stamp, r), _ => Text.padded digits stamp ++ go r n
      | none, [] => []
      | none, c :: r => c :: go r n

end Stamps

end AuditRelay.Scenario
