import NetQuery.Number.Nearest
import NetQuery.Query.Catalog
import NetQuery.Query.Value

/-!
# Parameters

A parameter is a value with the tag that tells an executor how to pass it on. The tag follows from
the literal and from the type of the column that it is compared with; a literal is never turned into
a value of another type, except that an integer may be widened to a float. A text that is compared
with a timestamp has to be one, and is bound in its standard form.
-/

namespace NetQuery

/-- A value bound to a placeholder. -/
inductive Param where
  | text (value : String)
  | textArray (values : List String)
  | intArray (values : List Int)
  | bool (value : Bool)
  | int (value : Int)
  | float (value : Float)
  /-- A timestamp in its standard form. -/
  | timestamptz (value : String)
deriving DecidableEq

/-- The tag of a parameter. -/
inductive ParamType where
  | text
  | textArray
  | intArray
  | bool
  | int
  | float
  | timestamptz
deriving DecidableEq, Repr

namespace ParamType

/-- All tags. -/
def all : List ParamType := [.text, .textArray, .intArray, .bool, .int, .float, .timestamptz]

/-- The name of a tag. -/
def name : ParamType → String
  | .text => "text"
  | .textArray => "text_array"
  | .intArray => "int_array"
  | .bool => "bool"
  | .int => "int"
  | .float => "float"
  | .timestamptz => "timestamptz"

end ParamType

/-- The tag of a parameter. -/
def Param.type : Param → ParamType
  | .text _ => .text
  | .textArray _ => .textArray
  | .intArray _ => .intArray
  | .bool _ => .bool
  | .int _ => .int
  | .float _ => .float
  | .timestamptz _ => .timestamptz

/-- What a value was to be bound as. -/
inductive BindTarget where
  /-- A parameter with this tag. -/
  | param (type : ParamType)
  /-- The elements of an array. -/
  | elements
deriving DecidableEq, Repr

/-- How a target is named in a message. -/
def BindTarget.name : BindTarget → String
  | .param type => type.name
  | .elements => "text or int elements"

/-- Why a value could not be bound. -/
inductive BindError where
  /-- The value is not of the type that is asked for. -/
  | typeMismatch (expected : BindTarget) (found : ValueKind)
  /-- The elements of a list are of different kinds. -/
  | mixedArray (first other : ValueKind)
  /-- A list has no elements. -/
  | emptyArray
  /-- A text that is compared with a timestamp is none. -/
  | invalidTimestamp (value : String)
  /-- Values of this kind are never bound. -/
  | unbindable (kind : ValueKind)
deriving DecidableEq, Repr

/-- The message of an error. -/
def BindError.message : BindError → String
  | .typeMismatch expected found =>
    Text.concat ["cannot bind ", found.name, " value as ", expected.name]
  | .mixedArray first other =>
    Text.concat ["array values must share one type: found ", first.name, " and ", other.name]
  | .emptyArray => "array parameters must contain at least one value"
  | .invalidTimestamp value =>
    Text.concat ["invalid timestamp '", value, "': expected an RFC 3339 timestamp with a zone"]
  | .unbindable kind => Text.concat [kind.name, " values cannot be bound as parameters"]

/-- The standard form of a timestamp. -/
def normalizeTimestamp (text : String) : Except BindError String :=
  (Time.Timestamp.normalize? text).elim (.error (.invalidTimestamp text)) .ok

/-- The standard forms of timestamps, up to the first text that is none. -/
def normalizeTimestamps : List String → Except BindError (List String)
  | [] => .ok []
  | text :: rest => do
    let standard ← normalizeTimestamp text
    let standards ← normalizeTimestamps rest
    .ok (standard :: standards)

/-- The tag of a literal that is compared with a column of the given type, if that is known. -/
def ParamType.infer (value : Value) (column : Option ColumnType) : Except BindError ParamType :=
  match value with
  | .text _ => .ok (if column = some .timestamptz then .timestamptz else .text)
  | .bool _ => .ok .bool
  | .int _ => .ok (if column = some .float then .float else .int)
  | .float _ => .ok .float
  | .list [] => .error .emptyArray
  | .list (.text _ :: _) => .ok .textArray
  | .list (.int _ :: _) => .ok .intArray
  | .list (other :: _) => .error (.typeMismatch .elements other.kind)
  | .keyword _ => .error (.unbindable .keyword)
  | .null => .error (.unbindable .null)

/-- The elements of an array are of one kind, and there is at least one. -/
def checkUniform : List Value → Except BindError Unit
  | [] => .error .emptyArray
  | first :: rest =>
    match rest.find? fun item => item.kind ≠ first.kind with
    | some other => .error (.mixedArray first.kind other.kind)
    | none => .ok ()

/-- The texts of an array. -/
def arrayTexts : List Value → Except BindError (List String)
  | [] => .ok []
  | .text value :: rest => (arrayTexts rest).map (value :: ·)
  | other :: _ => .error (.typeMismatch (.param .textArray) other.kind)

/-- The integers of an array. -/
def arrayInts : List Value → Except BindError (List Int)
  | [] => .ok []
  | .int value :: rest => (arrayInts rest).map (value :: ·)
  | other :: _ => .error (.typeMismatch (.param .intArray) other.kind)

/-- A value as a parameter with the given tag. -/
def Value.bind (value : Value) (type : ParamType) : Except BindError Param :=
  match value, type with
  | .text s, .text => .ok (.text s)
  | .text s, .timestamptz => (normalizeTimestamp s).map .timestamptz
  | .bool flag, .bool => .ok (.bool flag)
  | .int number, .int => .ok (.int number)
  | .int number, .float => .ok (.float (Number.ofInt number))
  | .float number, .float => .ok (.float number)
  | .list items, .textArray => do
    checkUniform items
    (arrayTexts items).map .textArray
  | .list items, .intArray => do
    checkUniform items
    (arrayInts items).map .intArray
  | .keyword _, _ => .error (.unbindable .keyword)
  | .null, _ => .error (.unbindable .null)
  | other, type => .error (.typeMismatch (.param type) other.kind)

/-- The operand of a membership as one array. Against a column of timestamps every text has to be
one, and is bound in its standard form. -/
def Value.bindList (value : Value) (column : Option ColumnType) : Except BindError Param := do
  let type ← ParamType.infer value column
  let param ← value.bind type
  match param, column.map ColumnType.element with
  | .textArray items, some .timestamptz => (normalizeTimestamps items).map .textArray
  | param, _ => .ok param

end NetQuery
