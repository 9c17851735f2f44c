import NetQuery.Text.Basic
import NetQuery.Text.Blank

/-!
# Backends and modes

A query is compiled for one of three backends, and in one of two modes. Both are chosen by name,
with blanks around the name and the case of ASCII letters left out of account.
-/

namespace NetQuery

/-- A name that stands for nothing that can be chosen. -/
structure UnsupportedName where
  /-- What was to be chosen. -/
  choice : String
  /-- The name, trimmed and in small letters. -/
  name : String
deriving DecidableEq, Repr

/-- The message of an unsupported name. -/
def UnsupportedName.message (u : UnsupportedName) : String :=
  Text.concat ["unsupported ", u.choice, " '", u.name, "'"]

/-- An engine that runs statements. -/
inductive Backend where
  /-- A columnar SQL engine. -/
  | clickHouse
  /-- A streaming SQL engine, which reads its sources through `table(...)`. -/
  | proton
  /-- A graph and document engine. -/
  | arangoDb
deriving DecidableEq, Repr

namespace Backend

/-- All backends. -/
def all : List Backend := [.clickHouse, .proton, .arangoDb]

/-- The canonical name. -/
def name : Backend → String
  | .clickHouse => "clickhouse"
  | .proton => "proton"
  | .arangoDb => "arangodb"

/-- The backend with a given canonical name. -/
def ofName? (name : String) : Option Backend := all.find? fun b => b.name == name

/-- The backend that a text names. Two backends have a second name. -/
def read (text : String) : Except UnsupportedName Backend :=
  match Text.lower (Text.trim text) with
  | "clickhouse" => .ok .clickHouse
  | "proton" | "timeplus" => .ok .proton
  | "arangodb" | "arango" => .ok .arangoDb
  | name => .error ⟨"backend", name⟩

end Backend

/-- How values travel with a statement. -/
inductive Mode where
  /-- As typed parameters beside the statement, which holds a placeholder for each. -/
  | parameterized
  /-- Inside the statement, which is then for display only. -/
  | literal
deriving DecidableEq, Repr

namespace Mode

/-- The canonical name. -/
def name : Mode → String
  | .parameterized => "parameterized"
  | .literal => "literal"

/-- The mode that a text names. -/
def read (text : String) : Except UnsupportedName Mode :=
  match Text.lower (Text.trim text) with
  | "safe" | "parameterized" | "params" => .ok .parameterized
  | "literal" | "embedded" => .ok .literal
  | name => .error ⟨"translation mode", name⟩

end Mode

end NetQuery
