import NetQuery.Text.Basic

/-!
# Media types

The body of a request has to be declared as JSON. A media type is a type, a subtype and parameters;
JSON is `application/json`, or any `application` subtype with the suffix `json`. The whole text has
to be a media type, parameters included.
-/

namespace NetQuery.Media

/-- A character of a token, of which the parts of a media type consist. -/
def isTokenChar (c : Char) : Bool :=
  c.isAlphanum || "!#$%&'*+-.^_`|~".toList.contains c

/-- A character inside a quoted parameter, which is one of printable ASCII. -/
def isQuotedChar (c : Char) : Bool := 0x1f < c.toNat && c.toNat < 0x7f

/-- Where in the parameters of a media type a text is read. -/
inductive Place where
  /-- Before a parameter. -/
  | start
  /-- Inside the name of a parameter. -/
  | name
  /-- Before the value of a parameter. -/
  | beforeValue
  /-- Inside a value that is not quoted. -/
  | value
  /-- Right after the opening quote. -/
  | quoteOpen
  /-- Inside a quoted value. -/
  | quoted
  /-- After the closing quote. -/
  | quoteClosed
deriving DecidableEq, Repr

/-- The place after a character, if the character may stand there. A value in quotes is not empty,
so that a quote right after the opening one belongs to it. -/
def Place.next (place : Place) (c : Char) : Option Place :=
  match place with
  | .start => if c = ' ' then some .start else if isTokenChar c then some .name else none
  | .name => if c = '=' then some .beforeValue else if isTokenChar c then some .name else none
  | .beforeValue => if c = '"' then some .quoteOpen else if isTokenChar c then some .value else none
  | .value => if c = ';' then some .start else if isTokenChar c then some .value else none
  | .quoteOpen => if isQuotedChar c then some .quoted else none
  | .quoted => if c = '"' then some .quoteClosed else if isQuotedChar c then some .quoted else none
  | .quoteClosed => if c = ';' then some .start else if c = ' ' then some .quoteClosed else none

/-- The parameters may end here. -/
def Place.mayEnd : Place → Bool
  | .start | .beforeValue | .value | .quoteClosed => true
  | _ => false

/-- A text is a sequence of parameters. -/
def areParameters (place : Place) : List Char → Bool
  | [] => place.mayEnd
  | c :: cs =>
    match place.next c with
    | some place => areParameters place cs
    | none => false

/-- A subtype that stands for JSON: by its name before the last plus sign, or by its suffix after
it. A plus sign at the start belongs to the name. -/
def namesJson (subtype : List Char) : Bool :=
  let json := "json".toList
  match subtype with
  | [] => false
  | first :: rest =>
    match Text.cut '+' rest.reverse with
    | none => subtype == json
    | some (suffix, name) => first :: name.reverse == json || suffix.reverse == json

/-- The media type of a body that is declared as JSON. -/
def isJson (mediaType : String) : Bool :=
  match Text.cut '/' (Text.lower mediaType).toList with
  | none => false
  | some (type, rest) =>
    let subtype := rest.takeWhile isTokenChar
    let ending := match rest.dropWhile isTokenChar with
      | [] => true
      | ';' :: parameters => areParameters .start parameters
      | _ => false
    type == "application".toList && namesJson subtype && ending

end NetQuery.Media
