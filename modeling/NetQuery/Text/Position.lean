import NetQuery.Text.Basic

/-!
# Places in a text

A place is given three ways at once: by the number of UTF-8 bytes before it, by its line, and by its
column. Lines and columns count from one, a column counts code points, and only a line feed starts
a new line.
-/

namespace NetQuery

/-- A place in a query text. -/
structure Position where
  /-- The number of bytes before the place. -/
  offset : Nat
  /-- The line, from one. -/
  line : Nat
  /-- The column, from one. -/
  column : Nat
deriving DecidableEq, Repr

namespace Position

/-- The place before the first character. -/
def start : Position := ⟨0, 1, 1⟩

/-- The place after `c`, when `c` stands at `p`. -/
def after (p : Position) (c : Char) : Position :=
  if c = '\n' then ⟨p.offset + c.utf8Size, p.line + 1, 1⟩
  else ⟨p.offset + c.utf8Size, p.line, p.column + 1⟩

/-- The place after all of `cs`, when `cs` stands at `p`. -/
def advance (p : Position) (cs : List Char) : Position := cs.foldl after p

/-- How a place is named in a message. -/
def text (p : Position) : String :=
  Text.concat ["line ", toString p.line, ", column ", toString p.column]

end Position

end NetQuery
