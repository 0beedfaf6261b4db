import AuditRelay.Decimal.Double

/-!
# AuditRelay.Decimal.Shortest — the fewest digits that name a double

The reals that round to a double form an interval around it, ends included when the mantissa is
even. `Double.shortest` looks at decimals of one, two, … seventeen digits: on each grid only the two
neighbours of the double can be nearest, and the first grid with a neighbour inside the interval
gives the digits. `Double.text` writes them: positional from `1e-5` up to `1e16`, always with a
point, and else with an exponent that carries its sign.
-/

namespace AuditRelay

namespace Double

/-- A positive rational, kept as a quotient. -/
structure Quotient where
  num : Nat
  den : Nat

/-- `n * 2 ^ e`. -/
def Quotient.ofBinary (n : Nat) (e : Int) : Quotient :=
  if 0 ≤ e then ⟨n * Nat.pow 2 e.natAbs, 1⟩ else ⟨n, Nat.pow 2 e.natAbs⟩

/-- The quotient over `10 ^ p`. -/
def Quotient.overPower (q : Quotient) (p : Int) : Quotient :=
  if 0 ≤ p then ⟨q.num, q.den * Nat.pow 10 p.natAbs⟩ else ⟨q.num * Nat.pow 10 p.natAbs, q.den⟩

/-- Steps up from an exponent that is too low to the one with `10 ^ e ≤ q < 10 ^ (e + 1)`. -/
def Quotient.decimalExponentFrom (q : Quotient) (e : Int) : Nat → Int
  | 0 => e
  | n + 1 =>
    let r := q.overPower (e + 1)
    if r.den ≤ r.num then q.decimalExponentFrom (e + 1) n else e

/-- The exponent of the leading decimal digit of `q`, when `q` lies between `2 ^ e` and
`2 ^ (e + 1)`. -/
def Quotient.decimalExponent (q : Quotient) (e : Int) : Int :=
  q.decimalExponentFrom ((e * 30103).fdiv 100000 - 1) 4

/-- Drops trailing zeros of a digit sequence and counts them in the exponent. -/
def stripZeros (digits : Nat) (exponent : Int) : Nat → Nat × Int
  | 0 => (digits, exponent)
  | n + 1 =>
    if digits ≠ 0 ∧ digits % 10 = 0 then stripZeros (digits / 10) (exponent + 1) n
    else (digits, exponent)

/-- The neighbour of the double on the grid of `n` digits that rounds to it; of two the nearer, of
two equally near the even one. The double is `4 * m * 2 ^ e`, its interval reaches down by
`below * 2 ^ e` and up by `2 * 2 ^ e`. -/
def onGrid (m : Nat) (e : Int) (below : Nat) (leading : Int) (n : Nat) : Option (Nat × Int) :=
  let p := leading - (n : Int) + 1
  let v := (Quotient.ofBinary (4 * m) e).overPower p
  let unit := (Quotient.ofBinary 1 e).overPower p
  let closed := m % 2 = 0
  let lower := v.num / v.den
  let downGap := v.num - lower * v.den
  let upGap := (lower + 1) * v.den - v.num
  -- distances are compared after `unit.num`, the denominators being equal
  let downOk := if closed then downGap ≤ below * unit.num else downGap < below * unit.num
  let upOk := if closed then upGap ≤ 2 * unit.num else upGap < 2 * unit.num
  if downOk ∧ lower ≠ 0 then
    if upOk ∧ (upGap < downGap ∨ (upGap = downGap ∧ lower % 2 = 1)) then some (lower + 1, p)
    else some (lower, p)
  else if upOk then some (lower + 1, p)
  else none

/-- Tries grids of `n`, `n + 1`, … digits. -/
def firstOnGrid (m : Nat) (e : Int) (below : Nat) (leading : Int) (n : Nat) : Nat → Nat × Int
  | 0 => (m, e)
  | k + 1 =>
    match onGrid m e below leading n with
    | some hit => stripZeros hit.1 hit.2 20
    | none => firstOnGrid m e below leading (n + 1) k

/-- Digits and exponent of the shortest decimal that names the absolute value; zero has the
digit 0. -/
def shortest (d : Double) : Nat × Int :=
  let m := d.mantissa
  if m = 0 then (0, 0)
  else
    let e := d.binaryExponent
    let below := if d.fractionBits = 0 ∧ 1 < d.exponentBits then 1 else 2
    let q := Quotient.ofBinary m e
    let leading := q.decimalExponent (e + (Nat.log2 m : Int))
    firstOnGrid m (e - 2) below leading 1 17

/-- Digits and exponent as text. The number is positional while the point stands within sixteen
places of the first digit or at most five before it. -/
def place (digits : Nat) (exponent : Int) : String :=
  let ds := (toString digits).toList
  let n := ds.length
  let point := (n : Int) + exponent
  if 0 ≤ exponent ∧ point ≤ 16 then
    String.ofList (ds ++ List.replicate exponent.natAbs '0' ++ ['.', '0'])
  else if 0 < point ∧ point ≤ 16 then
    String.ofList (ds.take point.natAbs ++ '.' :: ds.drop point.natAbs)
  else if -5 < point ∧ point ≤ 0 then
    String.ofList ('0' :: '.' :: List.replicate point.natAbs '0' ++ ds)
  else
    let mark := if point - 1 < 0 then '-' else '+'
    let power := (toString (point - 1).natAbs).toList
    String.ofList (ds.take 1 ++ (if n = 1 then [] else '.' :: ds.drop 1) ++ 'e' :: mark :: power)

/-- The number in its shortest form. -/
def text (d : Double) : String :=
  let (digits, exponent) := d.shortest
  if d.isNegative then "-" ++ place digits exponent else place digits exponent

end Double

end AuditRelay
