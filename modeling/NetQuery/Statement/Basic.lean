import NetQuery.Dialect.Basic
import NetQuery.Number.Layout
import NetQuery.Query.Basic
import NetQuery.Statement.Param

/-!
# Statements

A statement is a sequence of pieces: text, and values in the places where they are used. The two
modes are two ways to write one sequence. With parameters, each value is replaced by the placeholder
with its number, and the values stand beside the text in the same order. Without, each value is
written out as a literal of the dialect.
-/

namespace NetQuery

/-- A piece of a statement. -/
inductive Piece where
  /-- Text that is the same in both modes. -/
  | text (text : String)
  /-- A value. -/
  | param (param : Param)

/-- A value as a literal. -/
def Dialect.literal (d : Dialect) : Param → String
  | .text value | .timestamptz value => quote value
  | .bool value => if value then "true" else "false"
  | .int value => toString value
  | .float value => Number.Layout.literal.write value
  | .textArray values => d.listOpen ++ Text.join ", " (values.map quote) ++ d.listClose
  | .intArray values => d.listOpen ++ Text.join ", " (values.map toString) ++ d.listClose

namespace Piece

/-- The values of a statement, in order. -/
def params : List Piece → List Param
  | [] => []
  | .text _ :: rest => params rest
  | .param p :: rest => p :: params rest

/-- The statement with placeholders, of which the first has the given number. -/
def numbered (d : Dialect) : (number : Nat) → List Piece → String
  | _, [] => ""
  | number, .text s :: rest => s ++ numbered d number rest
  | number, .param _ :: rest => d.placeholder number ++ numbered d (number + 1) rest

/-- The statement with its values written out. -/
def embedded (d : Dialect) : List Piece → String
  | [] => ""
  | .text s :: rest => s ++ embedded d rest
  | .param p :: rest => d.literal p ++ embedded d rest

/-- The text of a statement in a mode. -/
def write (d : Dialect) : Mode → List Piece → String
  | .parameterized, pieces => numbered d 1 pieces
  | .literal, pieces => embedded d pieces

/-- The values that go with the text of a statement in a mode. -/
def bound : Mode → List Piece → List Param
  | .parameterized, pieces => params pieces
  | .literal, _ => []

end Piece

/-- The clauses of a statement, ready to be put together. -/
structure Clauses where
  /-- What is asked for. -/
  kind : QueryKind
  /-- Where it is stored. -/
  source : String
  /-- The filter, if there is one. -/
  filter : Option (List Piece)
  /-- The keys of the ordering. -/
  order : List String
  /-- How many records at most. -/
  limit : Option Nat
  /-- How many records to pass over. -/
  offset : Nat

namespace Clauses

/-- The statement of an SQL engine. -/
def sql (c : Clauses) (countProjection : String) : List Piece :=
  let projection := match c.kind with
    | .records => "*"
    | .count => countProjection
  let filter := match c.filter with
    | none => []
    | some filter => .text " WHERE " :: filter
  let order := if c.order.isEmpty then [] else [.text (" ORDER BY " ++ Text.join ", " c.order)]
  let limit := match c.limit with
    | none => []
    | some limit => [.text (" LIMIT " ++ toString limit)]
  let offset := if 0 < c.offset then [.text (" OFFSET " ++ toString c.offset)] else []
  .text ("SELECT " ++ projection ++ " FROM " ++ c.source) :: (filter ++ order ++ limit ++ offset)

/-- The statement of a document engine. -/
def document (c : Clauses) (binder separator : String) : List Piece :=
  let filter := match c.filter with
    | none => []
    | some filter => .text (separator ++ "FILTER ") :: filter
  let order :=
    if c.order.isEmpty then [] else [.text (separator ++ "SORT " ++ Text.join ", " c.order)]
  let limit := match c.limit with
    | none => []
    | some limit =>
      let passed := if 0 < c.offset then toString c.offset ++ ", " else ""
      [.text (separator ++ "LIMIT " ++ passed ++ toString limit)]
  let body := .text ("FOR " ++ binder ++ " IN " ++ c.source) ::
    (filter ++ order ++ limit ++ [.text (separator ++ "RETURN " ++ binder)])
  match c.kind with
  | .records => body
  | .count => .text "RETURN LENGTH(\n" :: (body ++ [.text "\n)"])

/-- The statement of a given shape. -/
def statement (c : Clauses) : Shape → List Piece
  | .sql countProjection => c.sql countProjection
  | .document binder separator => c.document binder separator

end Clauses

end NetQuery
