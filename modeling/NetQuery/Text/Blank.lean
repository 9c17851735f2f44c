/-!
# Blank characters

A character is blank when it has the Unicode property White_Space. That is a fixed set of 25 code
points, which includes the no-break spaces and the line and paragraph separators and excludes the
zero-width characters. Blanks separate tokens, and nothing else about them matters to a query.
-/

namespace NetQuery.Text

/-- The code points with the property White_Space, as closed ranges in increasing order. -/
def blankRanges : List (Nat × Nat) :=
  [(0x9, 0xd), (0x20, 0x20), (0x85, 0x85), (0xa0, 0xa0), (0x1680, 0x1680), (0x2000, 0x200a),
    (0x2028, 0x2029), (0x202f, 0x202f), (0x205f, 0x205f), (0x3000, 0x3000)]

/-- A code point lies in one of the closed ranges. -/
def inRanges (ranges : List (Nat × Nat)) (n : Nat) : Bool :=
  ranges.any fun (first, last) => first ≤ n && n ≤ last

/-- A blank character. -/
def isBlank (c : Char) : Bool := inRanges blankRanges c.toNat

/-- The characters without the blanks at either end. -/
def trimChars (cs : List Char) : List Char :=
  ((cs.dropWhile isBlank).reverse.dropWhile isBlank).reverse

/-- The text without the blanks at either end. -/
def trim (s : String) : String := String.ofList (trimChars s.toList)

end NetQuery.Text
