import NetQuery.Number.Nearest

/-!
# The fewest digits that read back

A positive binary64 number `m · 2^q` stands for all reals that round to it: an interval around it,
whose ends belong to it exactly when `m` is even. Its shortest decimal is the one with the fewest
digits inside that interval, and among those the nearest. Where two are equally near, the text form
says which is taken. The search tries one digit, then two, and so on: if any point of a decimal grid
lies in the interval, then so does one of the two grid points next to the number.
-/

namespace NetQuery.Number

/-- Which of two equally near decimals is taken. -/
inductive Tie where
  /-- The larger one. -/
  | up
  /-- The one whose last digit is even. -/
  | even
deriving DecidableEq, Repr

/-- A positive number and the interval of the reals that round to it, all over one denominator. -/
structure Rounding where
  /-- The lower end of the interval. -/
  low : Nat
  /-- The number itself. -/
  mid : Nat
  /-- The upper end of the interval. -/
  high : Nat
  /-- The common denominator. -/
  den : Nat
  /-- The ends belong to the interval. -/
  closed : Bool
deriving DecidableEq, Repr

namespace Rounding

/-- The interval of the finite positive number with the given bit pattern. The gap below a power of
two is half the gap above it. -/
def ofBits (bits : Nat) : Rounding :=
  let field : Nat := bits / fractions
  let fraction : Nat := bits % fractions
  let m := if field = 0 then fraction else fractions + fraction
  let q : Int := ((max field 1 : Nat) : Int) - 1077
  let below := if fraction = 0 && 1 < field then 1 else 2
  let scale := twoTo q.toNat
  ⟨(4 * m - below) * scale, 4 * m * scale, (4 * m + 2) * scale, twoTo (-q).toNat, m % 2 = 0⟩

/-- `n · 10^k` lies in the interval. -/
def holds (r : Rounding) (n : Nat) (k : Int) : Bool :=
  let x := n * tenTo k.toNat * r.den
  let unit := tenTo (-k).toNat
  if r.closed then r.low * unit ≤ x && x ≤ r.high * unit
  else r.low * unit < x && x < r.high * unit

/-- The power of ten of the leading digit of the number. -/
def lead (r : Rounding) : Int :=
  if r.den ≤ r.mid then ((Nat.toDigits 10 (r.mid / r.den)).length : Int) - 1
  else -((Nat.toDigits 10 ((r.den + r.mid - 1) / r.mid - 1)).length : Int)

/-- The number in units of `10^k`, rounded down. -/
def floorAt (r : Rounding) (k : Int) : Nat :=
  r.mid * tenTo (-k).toNat / (r.den * tenTo k.toNat)

/-- `n` is taken rather than `n + 1`, in units of `10^k`: it is nearer to the number, or equally
near and the tie goes its way. -/
def takesLower (r : Rounding) (tie : Tie) (n : Nat) (k : Int) : Bool :=
  let twice := 2 * r.mid * tenTo (-k).toNat
  let middle := (2 * n + 1) * (r.den * tenTo k.toNat)
  twice < middle || (twice = middle && tie = .even && n % 2 = 0)

/-- The grid point of `10^k` that stands for the number, if one does. -/
def pointAt (r : Rounding) (tie : Tie) (k : Int) : Option Nat :=
  let n := r.floorAt k
  match 0 < n && r.holds n k, r.holds (n + 1) k with
  | true, true => some (if r.takesLower tie n k then n else n + 1)
  | true, false => some n
  | false, true => some (n + 1)
  | false, false => none

/-- The first of the next `grids` grids, from coarse to fine, with a point that stands for the
number. Seventeen digits always suffice. -/
def search (r : Rounding) (tie : Tie) : (grids : Nat) → Int → Nat × Int
  | 0, k => (r.floorAt k, k)
  | grids + 1, k =>
    match r.pointAt tie k with
    | some n => (n, k)
    | none => search r tie grids (k - 1)

end Rounding

/-- Digits and the power of ten of the last one, with no zero at the end. The fuel is the number of
digits. -/
def dropZeros : Nat → Nat × Int → Nat × Int
  | 0, r => r
  | fuel + 1, (n, k) => if n % 10 = 0 then dropZeros fuel (n / 10, k + 1) else (n, k)

/-- The shortest decimal of the finite positive binary64 number with the given bit pattern: its
digits and the power of ten of its leading digit. -/
def shortest (tie : Tie) (bits : Nat) : List Char × Int :=
  let r := Rounding.ofBits bits
  let (n, k) := dropZeros 20 (r.search tie 17 r.lead)
  let digits := Nat.toDigits 10 n
  (digits, k + digits.length - 1)

end NetQuery.Number
