/-!
# Base64

Three bytes are written as four signs of an alphabet that is safe in a URL. There is no padding: one
or two bytes at the end take two or three signs, and the bits that are then left over are zero.
Reading accepts exactly what writing produces.
-/

namespace NetQuery.Text.Base64

/-- The sign of a number below 64. -/
def sign (n : Nat) : Char :=
  if n < 26 then Char.ofNat ('A'.toNat + n)
  else if n < 52 then Char.ofNat ('a'.toNat + (n - 26))
  else if n < 62 then Char.ofNat ('0'.toNat + (n - 52))
  else if n = 62 then '-'
  else '_'

/-- The number of a sign. -/
def number? (c : Char) : Option Nat :=
  if 'A' ≤ c && c ≤ 'Z' then some (c.toNat - 'A'.toNat)
  else if 'a' ≤ c && c ≤ 'z' then some (c.toNat - 'a'.toNat + 26)
  else if '0' ≤ c && c ≤ '9' then some (c.toNat - '0'.toNat + 52)
  else if c = '-' then some 62
  else if c = '_' then some 63
  else none

/-- The signs of a sequence of bytes. -/
def encode : List UInt8 → List Char
  | [] => []
  | [a] => [sign (a.toNat / 4), sign (a.toNat % 4 * 16)]
  | [a, b] =>
    [sign (a.toNat / 4), sign (a.toNat % 4 * 16 + b.toNat / 16), sign (b.toNat % 16 * 4)]
  | a :: b :: c :: rest =>
    sign (a.toNat / 4) :: sign (a.toNat % 4 * 16 + b.toNat / 16)
      :: sign (b.toNat % 16 * 4 + c.toNat / 64) :: sign (c.toNat % 64) :: encode rest

/-- The bytes of a sequence of numbers below 64. A single number at the end, or bits left over that
are not zero, are refused. -/
def join : List Nat → Option (List UInt8)
  | [] => some []
  | [_] => none
  | [x, y] => if y % 16 = 0 then some [UInt8.ofNat (x * 4 + y / 16)] else none
  | [x, y, z] =>
    if z % 4 = 0 then some [UInt8.ofNat (x * 4 + y / 16), UInt8.ofNat (y % 16 * 16 + z / 4)]
    else none
  | x :: y :: z :: w :: rest =>
    (join rest).map fun bytes =>
      UInt8.ofNat (x * 4 + y / 16) :: UInt8.ofNat (y % 16 * 16 + z / 4)
        :: UInt8.ofNat (z % 4 * 64 + w) :: bytes

/-- The bytes of a sequence of signs. -/
def decode? (signs : List Char) : Option (List UInt8) := (signs.mapM number?).bind join

end NetQuery.Text.Base64
