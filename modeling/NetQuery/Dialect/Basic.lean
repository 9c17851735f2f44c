import NetQuery.Dialect.Backend
import NetQuery.Query.Entity
import NetQuery.Query.Operator
import NetQuery.Query.Value

/-!
# Dialects

A dialect is everything that one backend wants said in its own way: where an entity is stored, how a
column, a function and an operator are written, how a placeholder is numbered, and how the clauses
of a statement are put together. It is a table, and the rest of the compiler is the same for all
backends.
-/

namespace NetQuery

/-- A part of a template. -/
inductive Slot where
  /-- Fixed text. -/
  | text (text : String)
  /-- The field. -/
  | field
  /-- The operand; of a range, the lower bound. -/
  | operand
  /-- The upper bound of a range. -/
  | upper
deriving DecidableEq, Repr

/-- How a condition is written: fixed text around the field and the operands. -/
abbrev Template := List Slot

/-- A template with its slots filled. `text` says what becomes of the fixed text. -/
def Template.fill {α : Type} (template : Template) (text : String → List α)
    (field operand upper : List α) : List α :=
  template.flatMap fun
    | .text s => text s
    | .field => field
    | .operand => operand
    | .upper => upper

/-- How the clauses of a statement are put together. -/
inductive Shape where
  /-- `SELECT projection FROM source ...`, with the given projection for a count. -/
  | sql (countProjection : String)
  /-- `FOR binder IN source ... RETURN binder`, with the given text between clauses. -/
  | document (binder : String) (separator : String)
deriving DecidableEq, Repr

/-- How a function of the query language is written. -/
inductive FunctionForm where
  /-- As a call with the given name. -/
  | call (name : String)
  /-- As a part of the text of a timestamp: the given function, start and length. -/
  | datePart (function : String) (start length : Nat)
deriving DecidableEq, Repr

/-- How the placeholders of parameters are written. -/
inductive PlaceholderStyle where
  /-- `$1`, `$2`, ... -/
  | dollar
  /-- `@p1`, `@p2`, ... -/
  | at
deriving DecidableEq, Repr

/-- The text before the number of a placeholder. -/
def PlaceholderStyle.mark : PlaceholderStyle → String
  | .dollar => "$"
  | .at => "@p"

/-- What one backend wants said in its own way. -/
structure Dialect where
  /-- The backend. -/
  backend : Backend
  /-- How the clauses are put together. -/
  shape : Shape
  /-- How placeholders are written. -/
  placeholderStyle : PlaceholderStyle
  /-- The native form of a date keyword, if there is one. -/
  dateKeyword : DateKeyword → Option String
  /-- Literals that disagree with the type of their column are refused. -/
  strictTypes : Bool
  /-- The word for conjunction. -/
  andWord : String
  /-- The word for disjunction. -/
  orWord : String
  /-- What opens a list of literals. -/
  listOpen : String
  /-- What closes a list of literals. -/
  listClose : String
  /-- What stands before the name of a column. -/
  qualifier : String
  /-- Where an entity is stored, if it is. -/
  source : Entity → Option String
  /-- How a function is written, if it is known. -/
  function : String → Option FunctionForm
  /-- The symbol of a comparison. -/
  comparator : Comparator → String
  /-- How a match against a pattern is written. -/
  like : Template
  /-- How a search for a part is written. -/
  contains : Template
  /-- How membership in a list is written. -/
  isIn : Template
  /-- How membership in a range is written. -/
  between : Template
  /-- How the absence of a value is written. -/
  isNull : Template
  /-- How the presence of a value is written. -/
  isNotNull : Template

namespace Dialect

/-- The symbol of an operator, if it compares two scalars. -/
def comparison (d : Dialect) : Operator → Option String
  | .compare comparator => some (d.comparator comparator)
  | _ => none

/-- A column is written in small letters. -/
def column (d : Dialect) (name : String) : String := d.qualifier ++ Text.lower name

/-- The placeholder with the given number. -/
def placeholder (d : Dialect) (number : Nat) : String := d.placeholderStyle.mark ++ toString number

/-- The inside of a quoted text: a backslash stands before each backslash and each quote. -/
def escape : List Char → List Char
  | [] => []
  | c :: cs => if c = '\\' || c = '\'' then '\\' :: c :: escape cs else c :: escape cs

/-- A text as a literal, in single quotes. -/
def quote (text : String) : String := String.ofList ('\'' :: (escape text.toList ++ ['\'']))

/-- The dialect of an SQL engine, which depends on its sources and on the name of its date
function. -/
def sql (backend : Backend) (source : Entity → String) (dateFunction : String) : Dialect where
  backend := backend
  shape := .sql "COUNT(*)"
  placeholderStyle := .dollar
  dateKeyword
    | .today => some "today()"
    | .yesterday => some "yesterday()"
  strictTypes := true
  andWord := "AND"
  orWord := "OR"
  listOpen := "("
  listClose := ")"
  qualifier := ""
  source e := some (source e)
  function
    | "date" => some (.call dateFunction)
    | "lower" => some (.call "lower")
    | "upper" => some (.call "upper")
    | _ => none
  comparator := Comparator.text
  like := [.field, .text " LIKE ", .operand]
  contains := [.text "position(", .field, .text ", ", .operand, .text ") > 0"]
  isIn := [.field, .text " IN ", .operand]
  between := [.field, .text " BETWEEN ", .operand, .text " AND ", .upper]
  isNull := [.field, .text " IS NULL"]
  isNotNull := [.field, .text " IS NOT NULL"]

/-- The columnar SQL engine stores every entity under its own name. -/
def clickHouse : Dialect := sql .clickHouse Entity.name "toDate"

/-- The name of an entity in the streaming SQL engine. -/
def streamName : Entity → String
  | .devices => "unified_devices"
  | e => e.name

/-- The streaming SQL engine reads its sources as tables. -/
def proton : Dialect := sql .proton (fun e => "table(" ++ streamName e ++ ")") "to_date"

/-- The collection of an entity in the graph store, which holds no logs, metrics or traces. -/
def collection? : Entity → Option String
  | .logs | .cpuMetrics | .diskMetrics | .memoryMetrics | .snmpMetrics | .otelTraceSummaries
  | .otelSpansEnriched => none
  | e => some e.name

/-- The graph engine has no date type: a date is the first ten characters of a timestamp, and a date
keyword is the text of its date. -/
def arangoDb : Dialect where
  backend := .arangoDb
  shape := .document "doc" "\n  "
  placeholderStyle := .at
  dateKeyword _ := none
  strictTypes := false
  andWord := "AND"
  orWord := "OR"
  listOpen := "["
  listClose := "]"
  qualifier := "doc."
  source := collection?
  function
    | "date" => some (.datePart "SUBSTRING" 0 10)
    | "lower" => some (.call "LOWER")
    | "upper" => some (.call "UPPER")
    | _ => none
  comparator
    | .eq => "=="
    | comparator => comparator.text
  like := [.text "LIKE(", .field, .text ", ", .operand, .text ", true)"]
  contains := [.text "CONTAINS(", .field, .text ", ", .operand, .text ")"]
  isIn := [.field, .text " IN ", .operand]
  between :=
    [.text "(", .field, .text " >= ", .operand, .text " AND ", .field, .text " <= ", .upper,
      .text ")"]
  isNull := [.field, .text " == null"]
  isNotNull := [.field, .text " != null"]

end Dialect

/-- The dialect of a backend. -/
def Backend.dialect : Backend → Dialect
  | .clickHouse => .clickHouse
  | .proton => .proton
  | .arangoDb => .arangoDb

end NetQuery
