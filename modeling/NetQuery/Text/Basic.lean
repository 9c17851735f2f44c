/-!
# Plain operations on text

Text is a `String` wherever it is stored and a list of characters wherever it is taken apart. The
operations here are the ones that every other part of the library shares: folding the case of the
ASCII letters, joining, cutting at a character, and writing a natural number with a least width.
-/

namespace NetQuery.Text

/-- The text with every ASCII capital made small. Letters outside ASCII keep their case, so folding
never merges two names that differ in anything but the case of ASCII letters. -/
def lower (s : String) : String := String.ofList (s.toList.map Char.toLower)

/-- Two texts agree when they differ at most in the case of ASCII letters. -/
def agree (s t : String) : Bool := lower s == lower t

/-- The texts one after the other. -/
def concat : List String → String
  | [] => ""
  | s :: rest => s ++ concat rest

/-- The texts in order, with `separator` between neighbours. -/
def join (separator : String) : List String → String
  | [] => ""
  | [s] => s
  | s :: t :: rest => s ++ separator ++ join separator (t :: rest)

/-- The parts of a text between the occurrences of `mark`. There is always one part more than there
are marks. -/
def splitOn (mark : Char) : List Char → List (List Char)
  | [] => [[]]
  | c :: cs =>
    if c = mark then [] :: splitOn mark cs
    else match splitOn mark cs with
      | [] => [[c]]
      | part :: parts => (c :: part) :: parts

/-- What stands before and after the first occurrence of `mark`. -/
def cut (mark : Char) : List Char → Option (List Char × List Char)
  | [] => none
  | c :: cs =>
    if c = mark then some ([], cs)
    else (cut mark cs).map fun (before, after) => (c :: before, after)

/-- The text without `mark` at its end, if it ends so. -/
def dropFinal (mark : Char) : List Char → Option (List Char)
  | [] => none
  | [c] => if c = mark then some [] else none
  | c :: d :: cs => (dropFinal mark (d :: cs)).map (c :: ·)

/-- `n` in decimal, filled up with leading zeros to at least `width` digits. -/
def padded (width n : Nat) : List Char :=
  let digits := Nat.toDigits 10 n
  List.replicate (width - digits.length) '0' ++ digits

end NetQuery.Text
