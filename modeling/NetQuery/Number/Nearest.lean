/-!
# The binary64 number nearest to a ratio

A ratio of natural numbers is rounded to the nearest binary64 number, a tie going to the even
neighbour, by exact arithmetic on natural numbers. Every decimal that is read and every integer that
is widened goes through this one function.
-/

namespace NetQuery.Number

/-- A power of two. -/
def twoTo (n : Nat) : Nat := Nat.pow 2 n

/-- A power of ten. -/
def tenTo (n : Nat) : Nat := Nat.pow 10 n

/-- The bit pattern of positive infinity. -/
def infinityBits : Nat := 0x7ff0000000000000

/-- The bit of the sign, which is set in negative numbers. -/
def signBit : Nat := 0x8000000000000000

/-- The number of fractions, that is of binary64 numbers between a power of two and the next. -/
def fractions : Nat := 0x10000000000000

/-- `num / den` rounded to the nearest integer, a tie going to the even one. -/
def divideToEven (num den : Nat) : Nat :=
  let quotient := num / den
  let twice := 2 * (num % den)
  if twice < den then quotient
  else if den < twice then quotient + 1
  else quotient + quotient % 2

/-- `num · 2^(-q) / den` rounded to the nearest integer, a tie going to the even one. -/
def scaledToEven (num den : Nat) (q : Int) : Nat :=
  divideToEven (num * twoTo (-q).toNat) (den * twoTo q.toNat)

/-- The exponent of the power of two at or below the positive ratio `num / den`. -/
def floorLog2 (num den : Nat) : Int :=
  let guess : Int := (num.log2 : Int) - (den.log2 : Int)
  if den * twoTo guess.toNat ≤ num * twoTo (-guess).toNat then guess else guess - 1

/-- The bit pattern of the binary64 number nearest to `num / den`, for a positive `den`.

The number has the form `m · 2^q`, where `q` is as small as 53 bits of `m` allow and at least -1074.
The pattern is `(q + 1074) · 2^52 + m` for normal and subnormal numbers alike, and a carry out of
`m` moves into the exponent by itself. -/
def nearestBits (num den : Nat) : Nat :=
  if num = 0 then 0
  else
    let q := max (floorLog2 num den - 52) (-1074)
    min ((q + 1074).toNat * fractions + scaledToEven num den q) infinityBits

/-- The binary64 number nearest to `num / den`, with the given sign. -/
def nearest (negative : Bool) (num den : Nat) : Float :=
  Float.ofBits (UInt64.ofNat (nearestBits num den + if negative then signBit else 0))

/-- The binary64 number nearest to an integer. -/
def ofInt (n : Int) : Float := nearest (n < 0) n.natAbs 1

end NetQuery.Number
