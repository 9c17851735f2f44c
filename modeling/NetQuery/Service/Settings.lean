import NetQuery.Dialect.Backend
import NetQuery.Service.Address

/-!
# Settings

A service listens at an address and has a backend, a mode and a greatest limit that apply where a
request does not say otherwise. They come from the environment. All variables are read first, then
the address is resolved, then the backend and the mode are looked up, and the first of these that
fails decides the error.
-/

namespace NetQuery

/-- What a service is set up with. -/
structure Settings where
  /-- Where it listens. -/
  listen : SocketAddress
  /-- The backend of a request that names none. -/
  backend : Backend
  /-- The mode of a request that names none. -/
  mode : Mode
  /-- The greatest limit that is applied; none: no bound. -/
  maxLimit : Option Nat
deriving DecidableEq, Repr

/-- Why the environment gives no settings. -/
inductive SettingsError where
  /-- A variable is given twice or holds no number where it should. -/
  | variables
  /-- The listen address is none. -/
  | listenAddress
  /-- The listen host and port make no address. -/
  | listenHost
  /-- There is no such backend. -/
  | backend (name : UnsupportedName)
  /-- There is no such mode. -/
  | mode (name : UnsupportedName)
deriving DecidableEq, Repr

namespace SettingsError

/-- The message of an error. -/
def message : SettingsError → String
  | .variables => "failed to parse SRQL_* environment variables"
  | .listenAddress => "invalid SRQL_LISTEN_ADDR value"
  | .listenHost => "invalid SRQL listen host/port combination"
  | .backend _ => "invalid SRQL_BACKEND value"
  | .mode _ => "invalid SRQL_TRANSLATION_MODE value"

/-- The cause of an error, where it can be named. -/
def cause? : SettingsError → Option String
  | .backend name | .mode name => some name.message
  | _ => none

end SettingsError

namespace Settings

/-- The host that is listened at by default. -/
def defaultHost : String := "0.0.0.0"

/-- The port that is listened at by default. -/
def defaultPort : Nat := 8480

/-- The settings of a service that reads no environment. -/
def embedded : Settings := ⟨.v4 [0, 0, 0, 0] defaultPort, .proton, .parameterized, none⟩

/-- The variables of an environment. -/
abbrev Environment := List (String × String)

/-- The name of a variable, in small letters. The Kelvin sign is the one character outside ASCII
whose small form is an ASCII letter. -/
def fold (name : String) : String :=
  String.ofList (name.toList.map fun c => if c.toNat = 0x212a then 'k' else c.toLower)

/-- The value of a variable, whose name is read in any case. It may be given once. -/
def lookup (env : Environment) (name : String) : Except SettingsError (Option String) :=
  match env.filter fun entry => fold entry.1 == name with
  | [] => .ok none
  | [entry] => .ok (some entry.2)
  | _ => .error .variables

/-- The value of a variable that holds an unsigned number up to `bound`. -/
def lookupNumber (env : Environment) (name : String) (bound : Nat) :
    Except SettingsError (Option Nat) := do
  match ← lookup env name with
  | none => .ok none
  | some text =>
    match SocketAddress.unsigned? bound text.toList with
    | some n => .ok (some n)
    | none => .error .variables

/-- The address of a listen address, or else of a host and a port. -/
def resolve (address host : Option String) (port : Option Nat) :
    Except SettingsError SocketAddress :=
  match address with
  | some text => (SocketAddress.ofText? text).elim (.error .listenAddress) .ok
  | none =>
    let text := Text.concat [host.getD defaultHost, ":", toString (port.getD defaultPort)]
    (SocketAddress.ofText? text).elim (.error .listenHost) .ok

/-- The settings in an environment. -/
def ofEnvironment (env : Environment) : Except SettingsError Settings := do
  let address ← lookup env "srql_listen_addr"
  let host ← lookup env "srql_listen_host"
  let port ← lookupNumber env "srql_listen_port" 65535
  let backend ← lookup env "srql_backend"
  let mode ← lookup env "srql_translation_mode"
  let maxLimit ← lookupNumber env "srql_max_limit" 0xffffffffffffffff
  let listen ← resolve address host port
  let backend ← match backend with
    | none => .ok Backend.proton
    | some text => (Backend.read text).mapError .backend
  let mode ← match mode with
    | none => .ok Mode.parameterized
    | some text => (Mode.read text).mapError .mode
  .ok ⟨listen, backend, mode, maxLimit⟩

end Settings

end NetQuery
