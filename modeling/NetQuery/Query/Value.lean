import NetQuery.Time.Timestamp

/-!
# Literal values

The operand of a condition is a scalar, a list of scalars, or nothing at all. A date keyword is a
scalar that names a day relative to the clock.
-/

namespace NetQuery

/-- A day named relative to the clock. -/
inductive DateKeyword where
  | today
  | yesterday
deriving DecidableEq, Repr

namespace DateKeyword

/-- How the keyword is written. -/
def name : DateKeyword → String
  | .today => "TODAY"
  | .yesterday => "YESTERDAY"

/-- The date that the keyword names at an instant. -/
def date (keyword : DateKeyword) (now : Time.Timestamp) : Time.Date :=
  match keyword with
  | .today => now.date
  | .yesterday => now.date.dayBefore

/-- The text of the date that the keyword names at an instant. -/
def dateText (keyword : DateKeyword) (now : Time.Timestamp) : String := (keyword.date now).text

end DateKeyword

/-- The operand of a condition. -/
inductive Value where
  /-- A text. -/
  | text (value : String)
  /-- A truth value. -/
  | bool (value : Bool)
  /-- An integer. -/
  | int (value : Int)
  /-- A number with a fraction. -/
  | float (value : Float)
  /-- A day relative to the clock. -/
  | keyword (keyword : DateKeyword)
  /-- The operands of a list or of a range. -/
  | list (items : List Value)
  /-- No operand. -/
  | null

/-- The kinds of values, which messages name. -/
inductive ValueKind where
  | text
  | bool
  | int
  | float
  | keyword
  | list
  | null
deriving DecidableEq, Repr

/-- The name of a kind in a message. -/
def ValueKind.name : ValueKind → String
  | .text => "string"
  | .bool => "bool"
  | .int => "int"
  | .float => "float"
  | .keyword => "keyword"
  | .list => "list"
  | .null => "null"

namespace Value

/-- The kind of a value. -/
def kind : Value → ValueKind
  | .text _ => .text
  | .bool _ => .bool
  | .int _ => .int
  | .float _ => .float
  | .keyword _ => .keyword
  | .list _ => .list
  | .null => .null

/-- The scalars of an operand: the items of a list, and otherwise the operand itself. -/
def scalars : Value → List Value
  | .list items => items
  | value => [value]

end Value

end NetQuery
