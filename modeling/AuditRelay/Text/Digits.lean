/-!
# AuditRelay.Text.Digits — numbers written in decimal digits
-/

namespace AuditRelay.Text

/-- The value of decimal digits, if there is at least one and nothing else. -/
def digits? : List Char → Option Nat
  | [] => none
  | c :: cs =>
    if (c :: cs).all Char.isDigit then
      some ((c :: cs).foldl (fun n c => n * 10 + (c.toNat - 48)) 0)
    else none

/-- A number up to a limit, without a sign or with a plus. -/
def unsigned? (limit : Nat) (cs : List Char) : Option Nat :=
  let digits := match cs with
    | '+' :: rest => rest
    | cs => cs
  match digits? digits with
  | some n => if n ≤ limit then some n else none
  | none => none

/-- The number with zeros in front, at least `width` digits wide. -/
def padded (width n : Nat) : List Char :=
  let ds := Nat.toDigits 10 n
  List.replicate (width - ds.length) '0' ++ ds

end AuditRelay.Text
