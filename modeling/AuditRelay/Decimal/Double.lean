/-!
# AuditRelay.Decimal.Double — doubles by their bits, and decimals read into them

A double is kept as its bits, so that equality of records is decided by looking. A decimal is read
as a significand of 64 bits times a power of ten (`Scaled`), and its double is the double nearest to
the significand, multiplied or divided by the double nearest to the power (`Scaled.toDouble?`). This
is at most a few units in the last place away from the double nearest to the decimal. Natural
numbers are rounded exactly (`nearestNat`), and those below `2 ^ 53` stay as they are.
-/

namespace AuditRelay

/-- A double-precision number, by its bits. -/
structure Double where
  bits : UInt64
  deriving DecidableEq, Repr, Inhabited

namespace Double

def ofFloat (x : Float) : Double := ⟨x.toBits⟩

def toFloat (d : Double) : Float := Float.ofBits d.bits

/-- The number with its sign turned. -/
def neg (d : Double) : Double := ⟨d.bits ^^^ 0x8000000000000000⟩

def isNegative (d : Double) : Bool := d.bits ≥ 0x8000000000000000

/-- The eleven bits of the exponent. -/
def exponentBits (d : Double) : Nat := (d.bits.toNat / Nat.pow 2 52) % Nat.pow 2 11

/-- The fifty-two bits of the fraction. -/
def fractionBits (d : Double) : Nat := d.bits.toNat % Nat.pow 2 52

/-- The absolute value is `mantissa * 2 ^ binaryExponent`. -/
def mantissa (d : Double) : Nat :=
  if d.exponentBits = 0 then d.fractionBits else d.fractionBits + Nat.pow 2 52

def binaryExponent (d : Double) : Int :=
  if d.exponentBits = 0 then -1074 else (d.exponentBits : Int) - 1075

def zero : Double := ⟨0⟩

/-- The natural number nearest to another one among those that are doubles; of two that are equally
near, the one with an even significand. -/
def nearestNat (n : Nat) : Nat :=
  let unit := Nat.pow 2 (n.log2 - 52)
  let significand := n / unit
  let rest := n % unit
  if unit < 2 * rest || (2 * rest = unit && significand % 2 = 1) then (significand + 1) * unit
  else significand * unit

end Double

/-- The decimal `significand * 10 ^ exponent`. -/
structure Scaled where
  significand : Nat
  exponent : Int
  deriving DecidableEq, Repr

namespace Scaled

/-- The largest power of ten that is a double. -/
def maxPower : Nat := 308

/-- The double nearest to a power of ten. -/
def power (n : Nat) : Float := Float.ofScientific 1 false n

/-- Divides by the largest power until the rest of the exponent has a power of its own; three
divisions make every significand zero. -/
def shrink (x : Float) (exponent : Nat) : Nat → Float
  | 0 => 0
  | n + 1 =>
    if exponent ≤ maxPower then x / power exponent
    else if x == 0 then x
    else shrink (x / power maxPower) (exponent - maxPower) n

/-- The double of a decimal, or nothing where it would be infinite. -/
def toDouble? (s : Scaled) : Option Double :=
  let x := s.significand.toUInt64.toFloat
  if s.exponent < 0 then some (.ofFloat (shrink x s.exponent.natAbs 4))
  else if s.exponent.natAbs ≤ maxPower then
    let y := x * power s.exponent.natAbs
    if y.isInf then none else some (.ofFloat y)
  else if s.significand = 0 then some .zero
  else none

end Scaled

end AuditRelay
