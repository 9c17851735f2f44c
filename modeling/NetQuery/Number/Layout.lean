import NetQuery.Number.Shortest

/-!
# How a binary64 number is written

Every text form of a number shows its shortest decimal. The forms differ in few decisions, which a
`Layout` records: between which powers of ten the number is written out in full, whether an integer
keeps its `.0`, whether a positive exponent has a sign, and which of two equally near decimals is
taken.
-/

namespace NetQuery.Number

/-- The decisions of one text form. -/
structure Layout where
  /-- The least power of ten of the leading digit that is written out in full; none: no bound. -/
  least : Option Int
  /-- The greatest power of ten of the leading digit that is written out in full; none: no bound. -/
  greatest : Option Int
  /-- An integer that is written out in full ends in `.0`. -/
  point : Bool
  /-- A positive exponent is written with a plus sign. -/
  plus : Bool
  /-- Which of two equally near decimals is taken. -/
  tie : Tie

namespace Layout

/-- A number with this power of ten of the leading digit is written out in full. -/
def inFull (l : Layout) (lead : Int) : Bool :=
  l.least.all (· ≤ lead) && l.greatest.all (lead ≤ ·)

/-- The digits written out in full. -/
def full (l : Layout) (digits : List Char) (lead : Int) : List Char :=
  if lead < 0 then '0' :: '.' :: (List.replicate (-lead - 1).toNat '0' ++ digits)
  else
    let whole := lead.toNat + 1
    if digits.length ≤ whole then
      digits ++ List.replicate (whole - digits.length) '0' ++ (if l.point then ['.', '0'] else [])
    else digits.take whole ++ '.' :: digits.drop whole

/-- The digits with a point after the first and an exponent. -/
def scientific (l : Layout) (digits : List Char) (lead : Int) : List Char :=
  let mantissa := match digits with
    | d :: rest@(_ :: _) => d :: '.' :: rest
    | digits => digits
  let sign := if l.plus && 0 < lead then ['+'] else []
  mantissa ++ 'e' :: (sign ++ (toString lead).toList)

/-- The text of a number in this form. -/
def write (l : Layout) (x : Float) : String :=
  let bits := x.toBits.toNat
  let magnitude := bits % signBit
  let sign := if signBit ≤ bits then ['-'] else []
  if infinityBits < magnitude then "NaN"
  else if magnitude = infinityBits then String.ofList (sign ++ ['i', 'n', 'f'])
  else if magnitude = 0 then String.ofList (sign ++ l.full ['0'] 0)
  else
    let (digits, lead) := shortest l.tie magnitude
    String.ofList (sign ++ if l.inFull lead then l.full digits lead else l.scientific digits lead)

/-- The form of a number inside a statement: in full from `0.0001` up to below `1e16`. -/
def literal : Layout := ⟨some (-4), some 15, true, false, .up⟩

/-- The form of a number in a message: always in full, and an integer without a point. -/
def message : Layout := ⟨none, none, false, false, .up⟩

/-- The form of a number in a response body: in full from `0.00001` up to below `1e16`, and a
positive exponent has a sign. -/
def wire : Layout := ⟨some (-5), some 15, true, true, .even⟩

end Layout

/-- A number that is neither infinite nor undefined. -/
def isFinite (x : Float) : Bool := x.toBits.toNat % signBit < infinityBits

end NetQuery.Number
