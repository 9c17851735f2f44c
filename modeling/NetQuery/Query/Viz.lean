import NetQuery.Query.Basic
import NetQuery.Query.Catalog
import NetQuery.Query.Field

/-!
# How a result may be shown

Beside a statement, a reader is told which columns the result has, what they stand for, and which
views suit it. A result that is ordered by time and has a column of values can be drawn as a series.
-/

namespace NetQuery

/-- What a column stands for. -/
inductive Semantic where
  | id
  | time
  | value
  | label
deriving DecidableEq, Repr

/-- The name of a semantic. -/
def Semantic.name : Semantic → String
  | .id => "id"
  | .time => "time"
  | .value => "value"
  | .label => "label"

/-- A column of a result. -/
structure ColumnInfo where
  /-- The column. -/
  column : Column
  /-- What it stands for, if that is known. -/
  semantic : Option Semantic
deriving DecidableEq, Repr

/-- A way to show a result. -/
inductive View where
  | stat
  | table
  | timeseries
deriving DecidableEq, Repr

/-- The name of a view. -/
def View.name : View → String
  | .stat => "stat"
  | .table => "table"
  | .timeseries => "timeseries"

/-- A view and the columns that it would show. -/
structure Suggestion where
  /-- The view. -/
  view : View
  /-- The column along the first axis. -/
  x : Option String
  /-- The column along the second axis. -/
  y : Option String
deriving DecidableEq, Repr

/-- How a result may be shown. -/
structure Viz where
  /-- The columns of the result. -/
  columns : List ColumnInfo
  /-- The views that suit it. -/
  suggestions : List Suggestion
deriving DecidableEq, Repr

/-- What a column stands for, by its type first and then by its name. -/
def Column.semantic? (c : Column) : Option Semantic :=
  if c.type = .timestamptz then some .time
  else if c.name = "count" || c.type = .float then some .value
  else if c.name = "id" || "_id".toList.isSuffixOf c.name.toList then some .id
  else if ["hostname", "name", "service_name", "if_name"].contains c.name then some .label
  else none

/-- What is said of a column. -/
def Column.info (c : Column) : ColumnInfo := ⟨c, c.semantic?⟩

namespace Query

/-- The column of times by which a query orders first, in small letters. -/
def timeColumn? (q : Query) : Option String :=
  match q.orderBy with
  | [] => none
  | item :: _ =>
    let column := Text.lower (FieldRef.ofText item.field).column
    if q.entity.columnType? column = some .timestamptz then some column else none

/-- The first column of values of an entity. -/
def valueColumn? (q : Query) : Option String :=
  (q.entity.columns.find? fun c => c.semantic? = some .value).map Column.name

/-- How the result of a query may be shown. -/
def viz (q : Query) : Viz :=
  match q.kind with
  | .count =>
    let count : Column := ⟨"count", .int⟩
    ⟨[count.info], [⟨.stat, none, some count.name⟩]⟩
  | .records =>
    let series := match q.timeColumn?, q.valueColumn? with
      | some x, some y => [⟨.timeseries, some x, some y⟩]
      | _, _ => []
    ⟨q.entity.columns.map Column.info, ⟨.table, none, none⟩ :: series⟩

end Query

end NetQuery
