import NetQuery.Json.Basic
import NetQuery.Query.Parser
import NetQuery.Statement.Compile

/-!
# What a caller is told when something fails

Whatever goes wrong between a request and a statement reaches the caller as one failure, with a kind
that a program can tell apart and a message that a person can read. A failure of the service itself
says nothing about its cause.
-/

namespace NetQuery

/-- What a caller is told when a query cannot be compiled. -/
inductive Failure where
  /-- The text is no query. -/
  | syntaxError (position : Position) (reason : String)
  /-- The query asks for something that is not known. -/
  | unknownEntity (name : String) (position : Position)
  /-- The entity is not stored in the backend. -/
  | unsupportedEntity (entity : String) (backend : Backend)
  /-- The backend has no such function. -/
  | unsupportedFunction (function : String) (backend : Backend)
  /-- A literal does not go with its operator or its column. -/
  | invalidLiteral (field : String) (operator : Operator) (reason : String)
  /-- The page cannot be found. -/
  | invalidCursor (reason : String)
  /-- A literal could not be bound. -/
  | bind (error : BindError)
  /-- The request makes no sense. -/
  | invalidRequest (reason : String)
  /-- The service failed. -/
  | internal
deriving DecidableEq, Repr

/-- The kinds of failures. -/
inductive FailureKind where
  | syntaxError
  | unknownEntity
  | unsupportedEntity
  | unsupportedFunction
  | invalidLiteral
  | invalidCursor
  | bind
  | invalidRequest
  | internal
deriving DecidableEq, Repr

/-- The name of a kind. -/
def FailureKind.name : FailureKind → String
  | .syntaxError => "syntax_error"
  | .unknownEntity => "unknown_entity"
  | .unsupportedEntity => "unsupported_entity"
  | .unsupportedFunction => "unsupported_function"
  | .invalidLiteral => "invalid_literal_for_operator"
  | .invalidCursor => "invalid_cursor"
  | .bind => "bind_error"
  | .invalidRequest => "invalid_request"
  | .internal => "internal"

namespace Failure

/-- The kind of a failure. -/
def kind : Failure → FailureKind
  | .syntaxError .. => .syntaxError
  | .unknownEntity .. => .unknownEntity
  | .unsupportedEntity .. => .unsupportedEntity
  | .unsupportedFunction .. => .unsupportedFunction
  | .invalidLiteral .. => .invalidLiteral
  | .invalidCursor _ => .invalidCursor
  | .bind _ => .bind
  | .invalidRequest _ => .invalidRequest
  | .internal => .internal

/-- The message of a failure. -/
def message : Failure → String
  | .syntaxError position reason => Text.concat ["syntax error at ", position.text, ": ", reason]
  | .unknownEntity name position =>
    Text.concat ["unknown entity '", name, "' at ", position.text]
  | .unsupportedEntity entity backend =>
    Text.concat ["entity '", entity, "' is not available on backend '", backend.name, "'"]
  | .unsupportedFunction function backend =>
    Text.concat ["function '", function, "' is not supported on backend '", backend.name, "'"]
  | .invalidLiteral field operator reason =>
    Text.concat ["invalid literal for '", field, " ", operator.text, "': ", reason]
  | .invalidCursor reason => Text.concat ["invalid cursor: ", reason]
  | .bind error => error.message
  | .invalidRequest reason => Text.concat ["invalid request: ", reason]
  | .internal => "internal error"

/-- The place in the query text that a failure points at. -/
def position? : Failure → Option Position
  | .syntaxError position _ => some position
  | .unknownEntity _ position => some position
  | _ => none

/-- The HTTP status of a failure: only a failure of the service itself is not the caller's. -/
def status : Failure → Nat
  | .internal => 500
  | _ => 400

/-- The body of a failure. -/
def toJson (f : Failure) : Json :=
  .object [("kind", .text f.kind.name), ("error", .text f.message)]

end Failure

/-- What a caller is told about a text that could not be read. -/
def ParseError.toFailure : ParseError → Failure
  | .syntaxError position fault => .syntaxError position fault.message
  | .unknownEntity name position => .unknownEntity name position

/-- What a caller is told about a query that could not be compiled. -/
def CompileError.toFailure : CompileError → Failure
  | .unsupportedEntity entity backend => .unsupportedEntity entity.name backend
  | .unsupportedFunction function backend => .unsupportedFunction function backend
  | .invalidLiteral field operator fault => .invalidLiteral field operator fault.message
  | .invalidCursor fault => .invalidCursor fault.message
  | .bind error => .bind error

end NetQuery
