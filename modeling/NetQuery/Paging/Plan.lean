import NetQuery.Paging.Cursor
import NetQuery.Query.Basic

/-!
# Turning pages

A result is read page by page. A page starts at the offset of its cursor and holds at most as many
rows as the limit allows. Once an executor knows how many rows came back, the plan says whether
there may be more, and under which cursor.
-/

namespace NetQuery

/-- What is said about the pages around a result. -/
structure PageInfo where
  /-- The cursor of the next page, if there may be one. -/
  nextCursor : Option String
  /-- The reader's own cursor, if the reader turned back. -/
  prevCursor : Option String
  /-- The limit that was applied. -/
  limit : Option Nat
deriving DecidableEq, Repr

namespace Paging

/-- The number of rows before a page. Without a page there are none; a page needs a limit. -/
def offsetOf (page : Option Page) (limit : Option Nat) : Except CursorFault Nat :=
  match page, limit with
  | none, _ => .ok 0
  | some _, none => .error .needsLimit
  | some page, some _ => Cursor.decode page.cursor

/-- The reader's own cursor, if the reader turned back. -/
def prevCursor (page : Option Page) : Option String :=
  match page with
  | some ⟨cursor, .prev, _⟩ => some cursor
  | _ => none

/-- What is said before any rows have come back. -/
def pending (page : Option Page) (limit : Option Nat) : PageInfo :=
  ⟨none, prevCursor page, limit⟩

/-- The cursor after a page that starts at `offset`, if the page was full. An offset stops at the
greatest one. -/
def nextCursor (offset : Nat) (limit : Option Nat) (rows : Nat) : Option String :=
  match limit with
  | some limit =>
    if 0 < limit && limit ≤ rows then some (Cursor.encode (min (offset + limit) Cursor.maxOffset))
    else none
  | none => none

/-- What is said once `rows` rows have come back. -/
def plan (page : Option Page) (limit : Option Nat) (rows : Nat) : Except CursorFault PageInfo :=
  match offsetOf page limit with
  | .error fault => .error fault
  | .ok offset => .ok ⟨nextCursor offset limit rows, prevCursor page, limit⟩

end Paging

end NetQuery
