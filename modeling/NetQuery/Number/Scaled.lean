import NetQuery.Number.Decimal

/-!
# Decimals read through a 64-bit significand

A number in a JSON text is read with machine words. Its leading digits make a significand as long as
they fit 64 bits, the digits after them count only as powers of ten, and one product or quotient
with a power of ten brings the significand to scale. The significand, the power and the result are
each rounded to the nearest binary64 number. So the outcome can differ in its last bits from the
number nearest to the decimal, and next to the largest number it can be infinite.
-/

namespace NetQuery.Number

/-- The finite number with the given bit pattern, as a numerator and a denominator. -/
def ratio (bits : Nat) : Nat × Nat :=
  let field := bits / fractions
  let fraction := bits % fractions
  if field = 0 then (fraction, twoTo 1074)
  else ((fractions + fraction) * twoTo (field - 1075), twoTo (1075 - field))

/-- The product of two finite numbers, rounded. -/
def product (a b : Nat) : Nat :=
  let (aNum, aDen) := ratio a
  let (bNum, bDen) := ratio b
  nearestBits (aNum * bNum) (aDen * bDen)

/-- The quotient of two finite numbers, rounded. The second one is positive. -/
def quotient (a b : Nat) : Nat :=
  let (aNum, aDen) := ratio a
  let (bNum, bDen) := ratio b
  nearestBits (aNum * bDen) (aDen * bNum)

/-- The largest significand. -/
def maxSignificand : Nat := 0xffffffffffffffff

/-- A significand with more digits behind it, up to the first one for which there is no room, and
the digits that are left. -/
def extend : (significand : Nat) → List Char → Nat × List Char
  | n, [] => (n, [])
  | n, c :: cs =>
    let longer := 10 * n + digitValue c
    if longer ≤ maxSignificand then extend longer cs else (n, c :: cs)

/-- A significand and the power of ten of its last digit. -/
structure Scaled where
  /-- The significand, which fits 64 bits. -/
  significand : Nat
  /-- The power of ten of its last digit. -/
  exponent : Int
deriving DecidableEq, Repr

namespace Scaled

/-- A written number. A whole digit without room in the significand raises the exponent, and a
fraction digit without room is dropped together with all that follow it. -/
def ofParts (whole fraction : List Char) (exponent : Int) : Scaled :=
  let (n, wholeLeft) := extend 0 whole
  let (m, fractionLeft) := extend n fraction
  ⟨m, exponent + wholeLeft.length + fractionLeft.length - fraction.length⟩

/-- The largest power of ten that a significand is multiplied with or divided by. -/
def highestPower : Nat := 308

/-- The bit pattern of a power of ten, rounded. -/
def power (n : Nat) : Nat := nearestBits (tenTo n) 1

/-- The bit pattern of a scaled number. A quotient by more than the largest power takes two steps,
and nothing is left of the number after two steps by the largest power. -/
def bits (s : Scaled) : Nat :=
  let n := nearestBits s.significand 1
  let up := s.exponent.toNat
  let down := (-s.exponent).toNat
  if s.significand = 0 then 0
  else if highestPower < up then infinityBits
  else if 0 < up then product n (power up)
  else if down ≤ highestPower then quotient n (power down)
  else if down ≤ 2 * highestPower then
    quotient (quotient n (power highestPower)) (power (down - highestPower))
  else 0

/-- The binary64 number of a scaled number, with the given sign, unless it is infinite. -/
def toFloat? (s : Scaled) (negative : Bool) : Option Float :=
  let bits := s.bits
  if bits < infinityBits then
    some (Float.ofBits (UInt64.ofNat (bits + if negative then signBit else 0)))
  else none

end Scaled

end NetQuery.Number
