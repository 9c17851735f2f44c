import NetQuery.Paging.Plan
import NetQuery.Query.Field
import NetQuery.Query.Viz
import NetQuery.Statement.Basic

/-!
# From queries to statements

A query is compiled for a backend in a fixed order: the entity has to be stored there, the page has
to be valid, then each comparison is written from left to right, then each key of the ordering. The
first of these that fails decides the error. Comparisons do not look at one another: what a chain of
conditions becomes is put together from what its comparisons become.
-/

namespace NetQuery

/-- Why a literal does not go with its operator or its column. -/
inductive LiteralFault where
  /-- A pattern has to be a text. -/
  | patternNotText
  /-- Truth values have no order. -/
  | orderedBool
  /-- The literal is not of the type of the column. -/
  | columnMismatch (column : ColumnType) (found : ValueKind)
  /-- A membership needs a list, and a range needs a list of two. -/
  | notAList
  /-- The operator does not compare two scalars. -/
  | noComparison
deriving DecidableEq, Repr

/-- The message of a fault. -/
def LiteralFault.message : LiteralFault → String
  | .patternNotText => "pattern must be a string literal"
  | .orderedBool => "booleans cannot be ordered"
  | .columnMismatch column found =>
    Text.concat [column.name, " column cannot be compared with a ", found.name, " literal"]
  | .notAList => "expected a list of values"
  | .noComparison => "operator has no comparison form"

/-- Why a query could not be compiled. -/
inductive CompileError where
  /-- The entity is not stored in the backend. -/
  | unsupportedEntity (entity : Entity) (backend : Backend)
  /-- The backend has no such function. -/
  | unsupportedFunction (function : String) (backend : Backend)
  /-- A literal does not go with its operator or its column. -/
  | invalidLiteral (field : String) (operator : Operator) (fault : LiteralFault)
  /-- The page cannot be found. -/
  | invalidCursor (fault : CursorFault)
  /-- A literal could not be bound. -/
  | bind (error : BindError)
deriving DecidableEq, Repr

/-- The outcome of a part of compiling. -/
abbrev Compiled (α : Type) : Type := Except CompileError α

namespace Compiler

/-- Where and when a query is compiled. -/
structure Context where
  /-- The dialect of the backend. -/
  dialect : Dialect
  /-- The entity of the query. -/
  entity : Entity
  /-- The clock. -/
  now : Time.Timestamp

/-- A field in the words of a backend. -/
structure RenderedField where
  /-- The expression. -/
  expression : String
  /-- The type of its value, if that is known. -/
  type : Option ColumnType
  /-- The expression is a part of the text of a timestamp, so that it can only be compared with the
  text of a date. -/
  datePart : Bool
deriving DecidableEq, Repr

/-- The type of what a function returns. -/
def functionType? : String → Option ColumnType
  | "date" => some .date
  | "lower" | "upper" => some .text
  | _ => none

/-- A field in the words of a backend. -/
def renderField (ctx : Context) (field : String) : Compiled RenderedField :=
  let ref := FieldRef.ofText field
  match ref.function with
  | none => .ok ⟨ctx.dialect.column field, ctx.entity.columnType? field, false⟩
  | some function =>
    match ctx.dialect.function function with
    | none => .error (.unsupportedFunction function ctx.dialect.backend)
    | some (.call name) =>
      let args := Text.join ", " (ref.args.map ctx.dialect.column)
      .ok ⟨name ++ "(" ++ args ++ ")", functionType? function, false⟩
    | some (.datePart name start length) =>
      if ref.args.length = 1 then
        let args := ctx.dialect.column ref.column ++ ", " ++ toString start ++ ", " ++
          toString length
        .ok ⟨name ++ "(" ++ args ++ ")", functionType? function, true⟩
      else .error (.unsupportedFunction function ctx.dialect.backend)

/-- A scalar may be compared with a column of the given element type. -/
def agrees : ColumnType → Value → Bool
  | .text, .text _ => true
  | .bool, .bool _ => true
  | .int, .int _ => true
  | .float, .int _ | .float, .float _ => true
  | .timestamptz, .text _ | .timestamptz, .keyword _ => true
  | .date, .text _ | .date, .keyword _ => true
  | _, _ => false

/-- A pattern is a text. -/
def isText : Value → Bool
  | .text _ => true
  | _ => false

/-- A truth value. -/
def isBool : Value → Bool
  | .bool _ => true
  | _ => false

/-- A number with a fraction. -/
def isFloat : Value → Bool
  | .float _ => true
  | _ => false

/-- The operand goes with the operator. -/
def checkOperator (operator : Operator) (value : Value) : Except LiteralFault Unit :=
  match operator with
  | .like | .contains => if isText value then .ok () else .error .patternNotText
  | operator =>
    if operator.isOrdering && value.scalars.any isBool then .error .orderedBool else .ok ()

/-- The operand goes with the type of the column. A null check has no operand, and a column of
unknown type takes any. -/
def checkColumn (operator : Operator) (value : Value) (column : Option ColumnType) :
    Except LiteralFault Unit :=
  match operator, column with
  | .isNull, _ | .isNotNull, _ | _, none => .ok ()
  | _, some type =>
    match value.scalars.find? fun scalar => !agrees type.element scalar with
    | some scalar => .error (.columnMismatch type scalar.kind)
    | none => .ok ()

/-- The operand goes with the operator and, where the dialect is strict, with the column. -/
def checkLiteral (d : Dialect) (operator : Operator) (value : Value) (column : Option ColumnType) :
    Except LiteralFault Unit := do
  checkOperator operator value
  if d.strictTypes then checkColumn operator value column else .ok ()

/-- A scalar operand. A date keyword stays a keyword where the backend has one for it and the field
is not a part of a text; otherwise it becomes the text of its date. -/
def scalar (ctx : Context) (field : RenderedField) (forced : Option ParamType) (value : Value) :
    Except BindError (List Piece) :=
  match value with
  | .keyword keyword =>
    match field.datePart, ctx.dialect.dateKeyword keyword with
    | false, some native => .ok [.text native]
    | _, _ => .ok [.param (.text (keyword.dateText ctx.now))]
  | value => do
    let type ← match forced with
      | some type => .ok type
      | none => ParamType.infer value field.type
    let param ← value.bind type
    .ok [.param param]

/-- The bounds of a range are bound as floats if either is written as one. -/
def rangeType (low high : Value) : Option ParamType :=
  if isFloat low || isFloat high then some .float else none

/-- A template with the expression of a field and its operands. -/
def fill (template : Template) (field : RenderedField) (operand upper : List Piece) : List Piece :=
  template.fill (fun s => [.text s]) [.text field.expression] operand upper

/-- The symbol of the operator of a comparison, which has to be one that compares two scalars. -/
def symbol (d : Dialect) (c : Comparison) : Compiled String :=
  match d.comparison c.operator with
  | some symbol => .ok symbol
  | none => .error (.invalidLiteral c.field c.operator .noComparison)

/-- The pieces of a comparison whose field has been rendered and whose literal has been checked. -/
def operation (ctx : Context) (c : Comparison) (field : RenderedField) :
    Compiled (List Piece) :=
  let d := ctx.dialect
  let lift := fun (e : Except BindError (List Piece)) => e.mapError CompileError.bind
  match c.operator, c.value with
  | .isNull, _ => .ok (fill d.isNull field [] [])
  | .isNotNull, _ => .ok (fill d.isNotNull field [] [])
  | .like, value => do
    let pattern ← lift (scalar ctx field none value)
    .ok (fill d.like field pattern [])
  | .contains, value => do
    let part ← lift (scalar ctx field none value)
    .ok (fill d.contains field part [])
  | .isIn, .list items => do
    let param ← ((Value.list items).bindList field.type).mapError CompileError.bind
    .ok (fill d.isIn field [.param param] [])
  | .between, .list [low, high] => do
    let forced := rangeType low high
    let lower ← lift (scalar ctx field forced low)
    let upper ← lift (scalar ctx field forced high)
    .ok (fill d.between field lower upper)
  | .isIn, _ | .between, _ => .error (.invalidLiteral c.field c.operator .notAList)
  | _, value => do
    let symbol ← symbol d c
    let operand ← lift (scalar ctx field none value)
    .ok (.text field.expression :: .text (" " ++ symbol ++ " ") :: operand)

/-- The pieces of a comparison. -/
def comparison (ctx : Context) (c : Comparison) : Compiled (List Piece) := do
  let field ← renderField ctx c.field
  (checkLiteral ctx.dialect c.operator c.value field.type).mapError
    (CompileError.invalidLiteral c.field c.operator)
  operation ctx c field

/-- The text that joins a condition to the ones before it. -/
def linkPieces (d : Dialect) : Link → List Piece
  | .first => []
  | .and => [.text (" " ++ d.andWord ++ " ")]
  | .or => [.text (" " ++ d.orWord ++ " ")]

mutual

/-- The pieces of a condition, with the word that joins it to the ones before it. -/
def condition (ctx : Context) : Condition → Compiled (List Piece)
  | .compare link c => do
    let pieces ← comparison ctx c
    .ok (linkPieces ctx.dialect link ++ pieces)
  | .group link members => do
    let pieces ← chain ctx members
    .ok (linkPieces ctx.dialect link ++ .text "(" :: (pieces ++ [.text ")"]))

/-- The pieces of a chain of conditions. -/
def chain (ctx : Context) : List Condition → Compiled (List Piece)
  | [] => .ok []
  | c :: rest => do
    let pieces ← condition ctx c
    let more ← chain ctx rest
    .ok (pieces ++ more)

end

/-- The filter of a query, if it has conditions. -/
def filter (ctx : Context) : List Condition → Compiled (Option (List Piece))
  | [] => .ok none
  | conditions => (chain ctx conditions).map some

/-- The word for a direction. -/
def directionWord : Direction → String
  | .ascending => "ASC"
  | .descending => "DESC"

/-- The keys of an ordering. -/
def order (ctx : Context) : List OrderItem → Compiled (List String)
  | [] => .ok []
  | item :: rest => do
    let field ← renderField ctx item.field
    let keys ← order ctx rest
    .ok ((field.expression ++ " " ++ directionWord item.direction) :: keys)

end Compiler

/-- Everything that an executor needs to run a query. -/
structure Artifact where
  /-- The text of the statement. -/
  statement : String
  /-- The values of its placeholders, in order. -/
  params : List Param
  /-- How the result may be shown. -/
  viz : Viz
  /-- What is said about its pages. -/
  pages : PageInfo

namespace Query

/-- The limit that applies: a count is one row, whatever the limit. -/
def appliedLimit (q : Query) : Option Nat :=
  match q.kind with
  | .records => q.limit
  | .count => none

/-- The page that applies: a count has no pages. -/
def appliedPage (q : Query) : Option Page :=
  match q.kind with
  | .records => q.page
  | .count => none

/-- The ordering that applies: a count has none. -/
def appliedOrder (q : Query) : List OrderItem :=
  match q.kind with
  | .records => q.orderBy
  | .count => []

/-- The clauses of a query in the words of a dialect. -/
def clauses (q : Query) (d : Dialect) (now : Time.Timestamp) : Compiled Clauses := do
  let source ← match d.source q.entity with
    | some source => .ok source
    | none => .error (.unsupportedEntity q.entity d.backend)
  let offset ← (Paging.offsetOf q.appliedPage q.appliedLimit).mapError .invalidCursor
  let ctx : Compiler.Context := ⟨d, q.entity, now⟩
  let filter ← Compiler.filter ctx q.conditions
  let order ← Compiler.order ctx q.appliedOrder
  .ok ⟨q.kind, source, filter, order, q.appliedLimit, offset⟩

/-- The statement of a query, in pieces. -/
def pieces (q : Query) (backend : Backend) (now : Time.Timestamp) : Compiled (List Piece) := do
  let clauses ← q.clauses backend.dialect now
  .ok (clauses.statement backend.dialect.shape)

/-- A query compiled for a backend in a mode. -/
def compile (q : Query) (backend : Backend) (mode : Mode) (now : Time.Timestamp) :
    Compiled Artifact := do
  let pieces ← q.pieces backend now
  .ok ⟨Piece.write backend.dialect mode pieces, Piece.bound mode pieces, q.viz,
    Paging.pending q.appliedPage q.appliedLimit⟩

end Query

end NetQuery
