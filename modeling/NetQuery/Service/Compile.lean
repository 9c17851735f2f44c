import NetQuery.Service.Failure
import NetQuery.Service.Request
import NetQuery.Service.Settings

/-!
# Compiling a request

The options of a request are laid over its query: the limit of a request replaces that of the query,
a greatest limit in the settings bounds either, and a cursor that is not blank names a page. The
text is read first, then the mode, then the limit, and then the query is compiled.
-/

namespace NetQuery

namespace Request

/-- The mode of a request. -/
def modeUnder (r : Request) (settings : Settings) : Except Failure Mode :=
  match r.mode with
  | none => .ok settings.mode
  | some text => (Mode.read text).mapError fun name => .invalidRequest name.message

/-- The limit of a request, which takes the place of the limit of its query. -/
def limitOver (r : Request) (q : Query) : Except Failure (Option Nat) :=
  match r.limit with
  | none => .ok q.limit
  | some n =>
    if 0 ≤ n then .ok (some n.toNat) else .error (.invalidRequest "limit must be non-negative")

/-- A limit within the greatest one. -/
def clamp (maxLimit limit : Option Nat) : Option Nat :=
  match limit, maxLimit with
  | some n, some most => some (min n most)
  | limit, _ => limit

/-- The page of a request. A blank cursor names none. -/
def page? (r : Request) : Option Page :=
  match r.cursor with
  | none => none
  | some cursor =>
    if (Text.trimChars cursor.toList).isEmpty then none else some ⟨cursor, r.direction, r.mode⟩

/-- The query of a request with the options of the request laid over it. -/
def queryUnder (r : Request) (settings : Settings) (q : Query) : Except Failure Query := do
  let limit ← r.limitOver q
  .ok { q with limit := clamp settings.maxLimit limit, page := r.page?.or q.page }

/-- A request compiled under settings, at an instant. -/
def compile (r : Request) (settings : Settings) (now : Time.Timestamp) :
    Except Failure Artifact := do
  let query ← (Query.parse r.query).mapError ParseError.toFailure
  let mode ← r.modeUnder settings
  let query ← r.queryUnder settings query
  (query.compile (r.backend.getD settings.backend) mode now).mapError CompileError.toFailure

end Request

end NetQuery
