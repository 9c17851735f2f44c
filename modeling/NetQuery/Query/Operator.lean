/-!
# Operators

Six operators compare two scalars and have a symbol of their own. The others match a pattern, look
into a list or a range, or ask whether there is a value at all.
-/

namespace NetQuery

/-- A comparison of two scalars. -/
inductive Comparator where
  | eq
  | ne
  | gt
  | lt
  | ge
  | le
deriving DecidableEq, Repr

/-- An operator of a condition. -/
inductive Operator where
  /-- A comparison with one scalar. -/
  | compare (comparator : Comparator)
  /-- A match against a pattern. -/
  | like
  /-- A search for a part. -/
  | contains
  /-- Membership in a list. -/
  | isIn
  /-- Membership in a closed range. -/
  | between
  /-- The absence of a value. -/
  | isNull
  /-- The presence of a value. -/
  | isNotNull
deriving DecidableEq, Repr

namespace Comparator

/-- How a comparison is written in a query. -/
def text : Comparator → String
  | .eq => "="
  | .ne => "!="
  | .gt => ">"
  | .lt => "<"
  | .ge => ">="
  | .le => "<="

/-- The comparison asks for an order, and not only whether two values are equal. -/
def isOrdering : Comparator → Bool
  | .eq | .ne => false
  | .gt | .lt | .ge | .le => true

end Comparator

namespace Operator

/-- All operators. -/
def all : List Operator :=
  [.compare .eq, .compare .ne, .compare .gt, .compare .lt, .compare .ge, .compare .le, .like,
    .contains, .isIn, .between, .isNull, .isNotNull]

/-- How an operator is written in a message. -/
def text : Operator → String
  | .compare comparator => comparator.text
  | .like => "LIKE"
  | .contains => "CONTAINS"
  | .isIn => "IN"
  | .between => "BETWEEN"
  | .isNull => "IS NULL"
  | .isNotNull => "IS NOT NULL"

/-- The name of an operator in the exchanged form of a query. -/
def name : Operator → String
  | .compare .eq => "eq"
  | .compare .ne => "ne"
  | .compare .gt => "gt"
  | .compare .lt => "lt"
  | .compare .ge => "ge"
  | .compare .le => "le"
  | .like => "like"
  | .contains => "contains"
  | .isIn => "in"
  | .between => "between"
  | .isNull => "is_null"
  | .isNotNull => "is_not_null"

/-- The operator with a given name. -/
def ofName? (name : String) : Option Operator := all.find? fun op => op.name == name

/-- The operator asks for an order of its operands. -/
def isOrdering : Operator → Bool
  | .compare comparator => comparator.isOrdering
  | .between => true
  | _ => false

end Operator

end NetQuery
