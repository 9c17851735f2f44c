import NetQuery.Json.Token

/-!
# Reading JSON

Tokens are followed one at a time by a machine that remembers which containers are open and what may
come next. `members` and `elements` walk over one object or array and note where each of its values
starts, so that a reader can look at the values that it knows and leave the others alone. `build`
puts the whole value together.
-/

namespace NetQuery

/-- What is open around a token. -/
inductive JsonContainer where
  | array
  | object
deriving DecidableEq, Repr

/-- What may come next. -/
inductive JsonNeed where
  /-- A value. -/
  | value
  /-- A value or the end of an array. -/
  | firstItem
  /-- A key or the end of an object. -/
  | firstKey
  /-- A key. -/
  | key
  /-- The colon after a key. -/
  | colon
  /-- A comma or the end of a container. -/
  | separator
deriving DecidableEq, Repr

/-- What a token does to the machine. -/
inductive JsonStep where
  /-- The machine goes on. -/
  | more (containers : List JsonContainer) (need : JsonNeed)
  /-- The last open container was closed. -/
  | done
  /-- The token may not come here. -/
  | fail
deriving DecidableEq, Repr

namespace JsonStep

/-- A value has ended inside the given containers. -/
def ended : List JsonContainer → JsonStep
  | [] => .done
  | containers => .more containers .separator

/-- A value starts inside the given containers. -/
def started (containers : List JsonContainer) : JsonToken → JsonStep
  | .openBrace => .more (.object :: containers) .firstKey
  | .openBracket => .more (.array :: containers) .firstItem
  | .null | .bool _ | .number _ | .text _ => ended containers
  | _ => .fail

/-- What a token does inside the given containers. -/
def step (containers : List JsonContainer) (need : JsonNeed) (token : JsonToken) : JsonStep :=
  match need, token, containers with
  | .firstItem, .closeBracket, .array :: outer => ended outer
  | .firstKey, .closeBrace, .object :: outer => ended outer
  | .separator, .closeBracket, .array :: outer => ended outer
  | .separator, .closeBrace, .object :: outer => ended outer
  | .separator, .comma, .array :: _ => .more containers .value
  | .separator, .comma, .object :: _ => .more containers .key
  | .firstKey, .text _, _ | .key, .text _, _ => .more containers .colon
  | .colon, .colon, _ => .more containers .value
  | .firstItem, token, _ | .value, token, _ => started containers token
  | _, _, _ => .fail

end JsonStep

namespace Json

/-- A member of an object: its key, if that has a value, and the tokens after the key. -/
structure Member where
  /-- The key. -/
  key : Option String
  /-- The tokens after the key, up to the end of the text. -/
  after : List JsonToken

/-- The members of the outermost container, which is an object, and the tokens after its end. There
are none if the text breaks off or goes wrong first. -/
def members (containers : List JsonContainer) (need : JsonNeed) :
    List JsonToken → List Member × Option (List JsonToken)
  | [] => ([], none)
  | token :: rest =>
    match JsonStep.step containers need token with
    | .fail => ([], none)
    | .done => ([], some rest)
    | .more containers' need' =>
      let (later, ending) := members containers' need' rest
      match containers, need', token with
      | [.object], .colon, .text key => (⟨key, rest⟩ :: later, ending)
      | _, _, _ => (later, ending)

/-- The members of an object whose opening brace has been read. -/
def objectMembers (tokens : List JsonToken) : List Member × Option (List JsonToken) :=
  members [.object] .firstKey tokens

/-- The elements of the outermost container, which is an array: for each, the tokens from its start
to the end of the text. The tokens after the end of the array follow, if it has one. -/
def elements (containers : List JsonContainer) (need : JsonNeed) :
    List JsonToken → List (List JsonToken) × Option (List JsonToken)
  | [] => ([], none)
  | token :: rest =>
    let starts := containers == [.array] && (need == .value || need == .firstItem)
    match JsonStep.step containers need token with
    | .fail => (if starts then [token :: rest] else [], none)
    | .done => ([], some rest)
    | .more containers' need' =>
      let (later, ending) := elements containers' need' rest
      (if starts then (token :: rest) :: later else later, ending)

/-- The elements of an array whose opening bracket has been read. -/
def arrayElements (tokens : List JsonToken) : List (List JsonToken) × Option (List JsonToken) :=
  elements [.array] .firstItem tokens

/-- A container that is being built. -/
inductive Frame where
  /-- An array and its items so far, the last one first. -/
  | array (items : List Json)
  /-- An object, its members so far, the last one first, and the key of the next one. -/
  | object (members : List (String × Json)) (key : String)

/-- The members of an object with one more. A later member takes the place of an earlier one with
the same key. -/
def addMember (members : List (String × Json)) (key : String) (value : Json) :
    List (String × Json) :=
  (key, value) :: members.filter fun member => member.1 != key

/-- The value of a token that stands for a whole value. -/
def scalar? : JsonToken → Option Json
  | .null => some .null
  | .bool value => some (.bool value)
  | .number value => value.map .number
  | .text value => value.map .text
  | _ => none

/-- Builds a value from tokens, inside the given containers, and gives the tokens that are left. -/
def build (frames : List Frame) (need : JsonNeed) :
    List JsonToken → Option (Json × List JsonToken)
  | [] => none
  | token :: rest =>
    let ended (frames : List Frame) (value : Json) : Option (Json × List JsonToken) :=
      match frames with
      | [] => some (value, rest)
      | .array items :: outer => build (.array (value :: items) :: outer) .separator rest
      | .object members key :: outer =>
        build (.object (addMember members key value) key :: outer) .separator rest
    match need, token, frames with
    | .firstItem, .closeBracket, .array items :: outer => ended outer (.array items.reverse)
    | .separator, .closeBracket, .array items :: outer => ended outer (.array items.reverse)
    | .firstKey, .closeBrace, .object members _ :: outer => ended outer (.object members.reverse)
    | .separator, .closeBrace, .object members _ :: outer => ended outer (.object members.reverse)
    | .separator, .comma, .array _ :: _ => build frames .value rest
    | .separator, .comma, .object _ _ :: _ => build frames .key rest
    | .firstKey, .text (some key), .object members _ :: outer
    | .key, .text (some key), .object members _ :: outer =>
      build (.object members key :: outer) .colon rest
    | .colon, .colon, _ => build frames .value rest
    | .firstItem, .openBrace, _ | .value, .openBrace, _ =>
      build (.object [] "" :: frames) .firstKey rest
    | .firstItem, .openBracket, _ | .value, .openBracket, _ =>
      build (.array [] :: frames) .firstItem rest
    | .firstItem, token, _ | .value, token, _ => (scalar? token).bind (ended frames)
    | _, _, _ => none

/-- The value that fills a text. -/
def parse? (text : String) : Option Json :=
  match build [] .value (JsonToken.ofChars (text.toList.map some)) with
  | some (value, []) => some value
  | _ => none

end Json

end NetQuery
