import NetQuery.Service.Compile
import NetQuery.Service.Media
import NetQuery.Service.Target
import NetQuery.Service.Wire

/-!
# The service over HTTP

There are two resources: `/healthz` says what the service is set up with, and `/translate` compiles
a request. The path is looked up first, then the method, then the declared type of the body and its
size, and then the body is read and compiled.
-/

namespace NetQuery.Http

/-- A request as it arrives. -/
structure Incoming where
  /-- The method. -/
  method : String
  /-- The target: a path with its query string, or a whole URI. -/
  target : String
  /-- The declared type of the body, if there is one. -/
  contentType : Option String
  /-- The body. -/
  body : String
deriving DecidableEq, Repr

/-- A response. -/
structure Response where
  /-- The status code. -/
  status : Nat
  /-- The body, if it is JSON. -/
  body : Option String
deriving DecidableEq, Repr

/-- The resources of the service. -/
inductive Resource where
  | health
  | compile
deriving DecidableEq, Repr

/-- A character of a header. -/
def isHeaderChar (c : Char) : Bool := c = '\t' || (0x1f < c.toNat && c.toNat ≠ 0x7f)

/-- A request can be sent at all: its method is a token, its target is well formed, and there is no
control character in its header. -/
def Incoming.isWellFormed (r : Incoming) : Bool :=
  !r.method.isEmpty && r.method.toList.all Media.isTokenChar && (Target.path? r.target).isSome &&
    r.contentType.all fun type => type.toList.all isHeaderChar

/-- The resource that a target leads to. Only its path matters, and the path has to be exact. -/
def resource? (target : String) : Option Resource :=
  match Target.path? target with
  | some "/healthz" => some .health
  | some "/translate" => some .compile
  | _ => none

/-- A response without a JSON body. -/
def plain (status : Nat) : Response := ⟨status, none⟩

/-- What the service is set up with. -/
def health (settings : Settings) : Json :=
  .object [("backend", .text settings.backend.name), ("mode", .text settings.mode.name),
    ("status", .text "ok")]

/-- The response to a body that is no request. -/
def bodyFault : BodyFault → Response
  | .malformed => plain 400
  | .mismatch => plain 422

/-- The most bytes of a body. -/
def maxBody : Nat := 0x200000

/-- The response to a request to compile. -/
def compile (settings : Settings) (now : Time.Timestamp) (r : Incoming) : Response :=
  if !r.contentType.any Media.isJson then plain 415
  else if maxBody < r.body.utf8ByteSize then plain 413
  else match Request.read r.body with
    | .error fault => bodyFault fault
    | .ok request =>
      match request.compile settings now with
      | .error failure => ⟨failure.status, some failure.toJson.write⟩
      | .ok artifact => ⟨200, some artifact.toJson.write⟩

/-- The response of a service to a request. -/
def respond (settings : Settings) (now : Time.Timestamp) (r : Incoming) : Response :=
  match resource? r.target, r.method with
  | none, _ => plain 404
  | some .health, "GET" => ⟨200, some (health settings).write⟩
  | some .health, "HEAD" => ⟨200, some ""⟩
  | some .compile, "POST" => compile settings now r
  | some _, _ => plain 405

end NetQuery.Http
