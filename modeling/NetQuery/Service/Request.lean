import NetQuery.Dialect.Backend
import NetQuery.Json.Reader
import NetQuery.Query.Basic

/-!
# Requests

A request is a query text and the options it is compiled under. It arrives as a JSON object, or as
an array of the same values in a fixed order. The body is read from the left and the first problem
decides: a body that is no JSON up to that point is malformed, and a body that is JSON but not a
request is a mismatch. Text after the request is not looked at, and neither are unknown members,
beyond being JSON.
-/

namespace NetQuery

/-- A query text and the options it is compiled under. -/
structure Request where
  /-- The query text. -/
  query : String
  /-- A limit that replaces the one in the query. -/
  limit : Option Int := none
  /-- The cursor of the page. -/
  cursor : Option String := none
  /-- Which way the reader turned. -/
  direction : PageDirection := .next
  /-- The mode, by name. -/
  mode : Option String := none
  /-- The backend. -/
  backend : Option Backend := none
deriving DecidableEq, Repr

/-- Why a body is no request. -/
inductive BodyFault where
  /-- It is no JSON. -/
  | malformed
  /-- It is JSON, but not of a request. -/
  | mismatch
deriving DecidableEq, Repr

namespace Request

/-- The outcome of reading a part of a body. -/
abbrev Read (α : Type) : Type := Except BodyFault α

/-- The fault of tokens that start with no value of the type that is asked for: a mismatch, if they
start with a value at all. -/
def unfit : List JsonToken → BodyFault
  | .null :: _ | .bool _ :: _ | .number (some _) :: _ | .text (some _) :: _ | .openBrace :: _
  | .openBracket :: _ => .mismatch
  | _ => .malformed

/-- A text. -/
def readText : List JsonToken → Read String
  | .text (some s) :: _ => .ok s
  | tokens => .error (unfit tokens)

/-- A limit: an integer of 64 bits with a sign. -/
def readLimit : List JsonToken → Read Int
  | .number (some (.int n)) :: _ =>
    if -0x8000000000000000 ≤ n && n ≤ 0x7fffffffffffffff then .ok n else .error .mismatch
  | tokens => .error (unfit tokens)

/-- A value that may also be null. -/
def readOptional {α : Type} (read : List JsonToken → Read α) : List JsonToken → Read (Option α)
  | .null :: _ => .ok none
  | tokens => (read tokens).map some

/-- One of a few names: the name as a text, or as the only key of an object that holds null. A value
of any other type is malformed, and so is an object that does not start with a key. -/
def readChoice {α : Type} (choose : String → Option α) : List JsonToken → Read α
  | .text (some name) :: _ =>
    match choose name with
    | some choice => .ok choice
    | none => .error .mismatch
  | .openBrace :: .text (some name) :: rest =>
    match choose name, rest with
    | none, _ => .error .mismatch
    | some choice, .colon :: .null :: .closeBrace :: _ => .ok choice
    | some _, .colon :: .null :: _ => .error .malformed
    | some _, .colon :: tokens => .error (unfit tokens)
    | some _, _ => .error .malformed
  | _ => .error .malformed

/-- The parts of a request that have been read so far. -/
structure Draft where
  query : Option String := none
  limit : Option (Option Int) := none
  cursor : Option (Option String) := none
  direction : Option PageDirection := none
  mode : Option (Option String) := none
  backend : Option (Option Backend) := none

namespace Draft

/-- The query. -/
def readQuery (d : Draft) (tokens : List JsonToken) : Read Draft := do
  let query ← readText tokens
  .ok { d with query := some query }

/-- The limit. -/
def readLimit (d : Draft) (tokens : List JsonToken) : Read Draft := do
  let limit ← readOptional Request.readLimit tokens
  .ok { d with limit := some limit }

/-- The cursor. -/
def readCursor (d : Draft) (tokens : List JsonToken) : Read Draft := do
  let cursor ← readOptional readText tokens
  .ok { d with cursor := some cursor }

/-- The direction. -/
def readDirection (d : Draft) (tokens : List JsonToken) : Read Draft := do
  let direction ← readChoice PageDirection.ofName? tokens
  .ok { d with direction := some direction }

/-- The mode. -/
def readMode (d : Draft) (tokens : List JsonToken) : Read Draft := do
  let mode ← readOptional readText tokens
  .ok { d with mode := some mode }

/-- The backend, by its canonical name. -/
def readBackend (d : Draft) (tokens : List JsonToken) : Read Draft := do
  let backend ← readOptional (readChoice Backend.ofName?) tokens
  .ok { d with backend := some backend }

/-- The parts of a request in the order in which an array holds them. -/
def readers : List (Draft → List JsonToken → Read Draft) :=
  [readQuery, readLimit, readCursor, readDirection, readMode, readBackend]

/-- A part of a request that may be given once. -/
def once (given : Bool) (d : Draft) (read : Draft → List JsonToken → Read Draft)
    (after : List JsonToken) : Read Draft :=
  if given then .error .mismatch
  else match after with
    | .colon :: tokens => read d tokens
    | _ => .error .malformed

/-- The request with one more member of an object. -/
def addMember (d : Draft) (m : Json.Member) : Read Draft :=
  match m.key with
  | none => .error .malformed
  | some "query" => once d.query.isSome d readQuery m.after
  | some "limit" => once d.limit.isSome d readLimit m.after
  | some "cursor" => once d.cursor.isSome d readCursor m.after
  | some "direction" => once d.direction.isSome d readDirection m.after
  | some "mode" => once d.mode.isSome d readMode m.after
  | some "backend" => once d.backend.isSome d readBackend m.after
  | some _ => .ok d

/-- The request with the elements of an array, each read in its turn. There are no more elements
than parts. -/
def addElements (d : Draft) : List (Draft → List JsonToken → Read Draft) → List (List JsonToken) →
    Read Draft
  | _, [] => .ok d
  | [], _ :: _ => .error .malformed
  | read :: readers, element :: elements => do
    let d ← read d element
    d.addElements readers elements

/-- The request, once its text has ended where it should. Only the query has to be given. -/
def finish (d : Draft) : Option (List JsonToken) → Read Request
  | none => .error .malformed
  | some _ =>
    match d.query with
    | none => .error .mismatch
    | some query =>
      .ok ⟨query, d.limit.join, d.cursor.join, d.direction.getD .next, d.mode.join, d.backend.join⟩

end Draft

/-- The request that a body starts with. -/
def ofTokens : List JsonToken → Read Request
  | .openBrace :: tokens => do
    let (members, ending) := Json.objectMembers tokens
    let draft ← members.foldlM Draft.addMember {}
    draft.finish ending
  | .openBracket :: tokens => do
    let (elements, ending) := Json.arrayElements tokens
    let draft ← Draft.addElements {} Draft.readers elements
    draft.finish ending
  | tokens => .error (unfit tokens)

/-- The request in a body. -/
def read (body : String) : Read Request := ofTokens (JsonToken.ofChars (body.toList.map some))

end Request

end NetQuery
