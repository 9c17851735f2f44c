import NetQuery.Number.Nearest
import NetQuery.Text.Basic

/-!
# Decimal numbers as written

A written number is split into its sign, its digits and the power of ten of its last digit, and then
taken to the nearest binary64 number. Digits are read one by one, so the length of a literal is
never a limit.
-/

namespace NetQuery.Number

/-- An ASCII digit. -/
def isDigit (c : Char) : Bool := c.isDigit

/-- The value of one ASCII digit. -/
def digitValue (c : Char) : Nat := c.toNat - '0'.toNat

/-- The value of a run of ASCII digits, which may start with zeros. -/
def value (digits : List Char) : Nat := digits.foldl (fun n c => 10 * n + digitValue c) 0

/-- Positive or negative infinity. -/
def infinity (negative : Bool) : Float :=
  Float.ofBits (UInt64.ofNat (infinityBits + if negative then signBit else 0))

/-- The decimal number `± digits · 10^exponent`. -/
structure Decimal where
  /-- There is a minus sign. -/
  negative : Bool
  /-- All digits, with the point left out. -/
  digits : Nat
  /-- The power of ten of the last digit. -/
  exponent : Int
deriving DecidableEq, Repr

namespace Decimal

/-- Above this power of ten of the leading digit every number rounds to infinity. -/
def highest : Int := 310

/-- Below this power of ten of the leading digit every number rounds to zero. -/
def lowest : Int := -330

/-- The binary64 number nearest to a decimal. The two bounds keep a huge exponent from being
raised to a power: they change no result. -/
def toFloat (d : Decimal) : Float :=
  let lead : Int := (Nat.toDigits 10 d.digits).length + d.exponent
  if d.digits = 0 || lead < lowest then nearest d.negative 0 1
  else if highest < lead then infinity d.negative
  else nearest d.negative (d.digits * tenTo d.exponent.toNat) (tenTo (-d.exponent).toNat)

/-- A decimal from the digits before and after its point. -/
def ofParts (negative : Bool) (whole fraction : List Char) (exponent : Int) : Decimal :=
  ⟨negative, value (whole ++ fraction), exponent - fraction.length⟩

end Decimal

/-- An optional sign and then digits, as in the exponent of a number: the value and what follows. -/
def exponentPart : List Char → Option (Int × List Char)
  | cs =>
    let (negative, cs) := match cs with
      | '-' :: rest => (true, rest)
      | '+' :: rest => (false, rest)
      | cs => (false, cs)
    let digits := cs.takeWhile isDigit
    if digits.isEmpty then none
    else
      let n : Int := value digits
      some (if negative then -n else n, cs.dropWhile isDigit)

/-- The value that is not a number. -/
def notANumber : Float := Float.ofBits 0x7ff8000000000000

/-- Reads a number: a sign, then `inf`, `infinity` or `nan` in any case, or digits with a point and
an exponent that may be left out. There is a digit before or after the point. -/
def readFloat? (s : String) : Option Float :=
  let (negative, cs) := match s.toList with
    | '-' :: rest => (true, rest)
    | '+' :: rest => (false, rest)
    | cs => (false, cs)
  match String.ofList (cs.map Char.toLower) with
  | "inf" | "infinity" => some (infinity negative)
  | "nan" => some notANumber
  | _ =>
    let whole := cs.takeWhile isDigit
    let rest := cs.dropWhile isDigit
    let (fraction, rest) := match rest with
      | '.' :: rest => (rest.takeWhile isDigit, rest.dropWhile isDigit)
      | rest => ([], rest)
    if whole.isEmpty && fraction.isEmpty then none
    else match rest with
      | [] => some (Decimal.ofParts negative whole fraction 0).toFloat
      | 'e' :: rest | 'E' :: rest =>
        match exponentPart rest with
        | some (e, []) => some (Decimal.ofParts negative whole fraction e).toFloat
        | _ => none
      | _ => none

end NetQuery.Number
