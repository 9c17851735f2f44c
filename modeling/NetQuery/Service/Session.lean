import NetQuery.Service.Compile

/-!
# Reading page by page

A reader turns pages by handing back the cursor of the last plan. Each turn compiles the same query
with the cursor at hand, learns how many rows came back, and plans on. A turn that fails leaves the
cursor as it was.
-/

namespace NetQuery

/-- One turn of a reader. -/
structure Turn where
  /-- The number of rows that come back. -/
  rows : Nat
  /-- The limit of this turn. -/
  limit : Option Int
  /-- Which way the reader turns. -/
  direction : PageDirection
  /-- A cursor that replaces the one at hand. -/
  cursor : Option String
deriving DecidableEq, Repr

/-- What a turn yields. -/
structure TurnOutcome where
  /-- The statement that was run. -/
  statement : String
  /-- What was said about the pages before the rows came back. -/
  pending : PageInfo
  /-- What was said after. -/
  plan : PageInfo
deriving DecidableEq, Repr

namespace Session

/-- The page of a cursor. -/
def pageOf (cursor : Option String) (direction : PageDirection) : Option Page :=
  cursor.map fun cursor => ⟨cursor, direction, none⟩

/-- One turn with the given cursor at hand. -/
def turn (settings : Settings) (now : Time.Timestamp) (query : String) (cursor : Option String)
    (t : Turn) : Except Failure TurnOutcome := do
  let request : Request := ⟨query, t.limit, cursor, t.direction, none, none⟩
  let artifact ← request.compile settings now
  let plan ← (Paging.plan (pageOf cursor t.direction) artifact.pages.limit t.rows).mapError
    fun fault => .invalidCursor fault.message
  .ok ⟨artifact.statement, artifact.pages, plan⟩

/-- The turns of a reader, one after the other, with the given cursor at hand. -/
def run (settings : Settings) (now : Time.Timestamp) (query : String) :
    (cursor : Option String) → List Turn → List (Except Failure TurnOutcome)
  | _, [] => []
  | cursor, t :: turns =>
    let cursor := t.cursor.or cursor
    let outcome := turn settings now query cursor t
    let next := match outcome with
      | .ok outcome => outcome.plan.nextCursor
      | .error _ => cursor
    outcome :: run settings now query next turns

end Session

end NetQuery
