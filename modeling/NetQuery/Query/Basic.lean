import NetQuery.Query.Entity
import NetQuery.Query.Operator
import NetQuery.Query.Value

/-!
# Queries

A query either shows the records of an entity or counts them. Its conditions form a chain: each is
joined to the ones before it by `and` or `or`, and a condition may be a chain of its own inside
parentheses. The form says nothing about any backend.
-/

namespace NetQuery

/-- What is asked for. -/
inductive QueryKind where
  /-- The records. -/
  | records
  /-- The number of records. -/
  | count
deriving DecidableEq, Repr

/-- How a condition is joined to the ones before it in its chain. -/
inductive Link where
  /-- It is the first. -/
  | first
  /-- By conjunction. -/
  | and
  /-- By disjunction. -/
  | or
deriving DecidableEq, Repr

/-- The comparison of a field with an operand. -/
structure Comparison where
  /-- The text of the field. -/
  field : String
  /-- The operator. -/
  operator : Operator
  /-- The operand. -/
  value : Value

/-- One entry of a chain of conditions. -/
inductive Condition where
  /-- A comparison. -/
  | compare (link : Link) (comparison : Comparison)
  /-- A chain in parentheses. -/
  | group (link : Link) (members : List Condition)

/-- How the condition is joined to the ones before it. -/
def Condition.link : Condition → Link
  | .compare link _ => link
  | .group link _ => link

/-- The direction of an ordering. -/
inductive Direction where
  | ascending
  | descending
deriving DecidableEq, Repr

/-- One key of an ordering. -/
structure OrderItem where
  /-- The text of the field. -/
  field : String
  /-- Its direction. -/
  direction : Direction
deriving DecidableEq, Repr

/-- Which way a reader turns the pages. -/
inductive PageDirection where
  | next
  | prev
deriving DecidableEq, Repr

/-- The name of a page direction. -/
def PageDirection.name : PageDirection → String
  | .next => "next"
  | .prev => "prev"

/-- The page direction with a given name. -/
def PageDirection.ofName? : String → Option PageDirection
  | "next" => some .next
  | "prev" => some .prev
  | _ => none

/-- A page of a result, named by a cursor. -/
structure Page where
  /-- The cursor, as the reader gave it. -/
  cursor : String
  /-- Which way the reader turned. -/
  direction : PageDirection
  /-- The mode that the reader asked for, as written. -/
  mode : Option String
deriving DecidableEq, Repr

/-- A query. -/
structure Query where
  /-- What is asked for. -/
  kind : QueryKind
  /-- Of what. -/
  entity : Entity
  /-- Under which conditions. -/
  conditions : List Condition
  /-- In which order. -/
  orderBy : List OrderItem
  /-- How many records at most. -/
  limit : Option Nat
  /-- Only the latest record of each thing is wanted. Executors honour it; statements do not
  show it. -/
  latest : Bool
  /-- Which page. -/
  page : Option Page

end NetQuery
