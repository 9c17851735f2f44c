import NetQuery.Json.Basic
import NetQuery.Statement.Compile

/-!
# Artifacts as JSON

The members of each object come in a fixed order. A member that has no value is null in what is said
about pages, and left out in what is said about columns and views.
-/

namespace NetQuery

/-- The value of a parameter. -/
def Param.valueJson : Param → Json
  | .text value | .timestamptz value => .text value
  | .textArray values => .array (values.map .text)
  | .intArray values => .array (values.map .int)
  | .bool value => .bool value
  | .int value => .int value
  | .float value => .number (.float value)

/-- A parameter with its tag. -/
def Param.toJson (p : Param) : Json :=
  .object [("type", .text p.type.name), ("value", p.valueJson)]

/-- A member that is left out when it has no value. -/
def optionalMember (key : String) : Option String → List (String × Json)
  | none => []
  | some value => [(key, .text value)]

/-- A column of a result. -/
def ColumnInfo.toJson (c : ColumnInfo) : Json :=
  .object ([("name", .text c.column.name), ("type", .text c.column.type.name)] ++
    optionalMember "semantic" (c.semantic.map Semantic.name))

/-- A suggested view. -/
def Suggestion.toJson (s : Suggestion) : Json :=
  .object ([("kind", .text s.view.name)] ++ optionalMember "x" s.x ++ optionalMember "y" s.y)

/-- How a result may be shown. -/
def Viz.toJson (v : Viz) : Json :=
  .object [("columns", .array (v.columns.map ColumnInfo.toJson)),
    ("suggestions", .array (v.suggestions.map Suggestion.toJson))]

/-- What is said about pages. -/
def PageInfo.toJson (p : PageInfo) : Json :=
  .object [("next_cursor", .optional .text p.nextCursor),
    ("prev_cursor", .optional .text p.prevCursor), ("limit", .optional .nat p.limit)]

/-- An artifact. -/
def Artifact.toJson (a : Artifact) : Json :=
  .object [("statement", .text a.statement), ("params", .array (a.params.map Param.toJson)),
    ("viz", a.viz.toJson), ("pagination", a.pages.toJson)]

end NetQuery
