import NetQuery.Number.Layout
import NetQuery.Text.Basic

/-!
# JSON values

A JSON value keeps the members of an object in order. A number is an integer, if it is written as
one and fits 64 bits, and a binary64 number otherwise. Writing is compact.
-/

namespace NetQuery

/-- A JSON number. -/
inductive JsonNumber where
  /-- An integer of at most 64 bits. -/
  | int (value : Int)
  /-- Any other number. -/
  | float (value : Float)

/-- A JSON value. -/
inductive Json where
  | null
  | bool (value : Bool)
  | number (value : JsonNumber)
  | text (value : String)
  | array (items : List Json)
  | object (members : List (String × Json))
deriving Inhabited

namespace Json

/-- An integer. -/
def int (n : Int) : Json := .number (.int n)

/-- A natural number. -/
def nat (n : Nat) : Json := .number (.int n)

/-- A value that may be absent, which is then null. -/
def optional {α : Type} (write : α → Json) : Option α → Json
  | none => .null
  | some a => write a

/-- The hexadecimal digit of a number below 16. -/
def hexDigit (n : Nat) : Char :=
  if n < 10 then Char.ofNat ('0'.toNat + n) else Char.ofNat ('a'.toNat + (n - 10))

/-- A character inside a quoted text. The quote, the backslash and the characters below U+0020 are
escaped, and no others. -/
def escapeChar (c : Char) : List Char :=
  if c = '"' then ['\\', '"']
  else if c = '\\' then ['\\', '\\']
  else if c = '\n' then ['\\', 'n']
  else if c = '\r' then ['\\', 'r']
  else if c = '\t' then ['\\', 't']
  else if c.toNat = 0x8 then ['\\', 'b']
  else if c.toNat = 0xc then ['\\', 'f']
  else if c.toNat < 0x20 then
    ['\\', 'u', '0', '0', hexDigit (c.toNat / 16), hexDigit (c.toNat % 16)]
  else [c]

/-- A text in quotes. -/
def quote (s : String) : String :=
  String.ofList ('"' :: (s.toList.flatMap escapeChar ++ ['"']))

/-- A number. One that is infinite or undefined has no form and is written as null. -/
def writeNumber : JsonNumber → String
  | .int n => toString n
  | .float x => if Number.isFinite x then Number.Layout.wire.write x else "null"

mutual

/-- The compact text of a value. -/
def write : Json → String
  | .null => "null"
  | .bool value => if value then "true" else "false"
  | .number value => writeNumber value
  | .text value => quote value
  | .array items => "[" ++ writeItems items ++ "]"
  | .object members => "\x7b" ++ writeMembers members ++ "\x7d"

/-- The items of an array, with commas between them. -/
def writeItems : List Json → String
  | [] => ""
  | [item] => item.write
  | item :: rest => item.write ++ "," ++ writeItems rest

/-- The members of an object, with commas between them. -/
def writeMembers : List (String × Json) → String
  | [] => ""
  | [(key, value)] => quote key ++ ":" ++ value.write
  | (key, value) :: rest => quote key ++ ":" ++ value.write ++ "," ++ writeMembers rest

end

/-- The member with a given key. -/
def member? (key : String) : Json → Option Json
  | .object members => (members.find? fun member => member.1 == key).map Prod.snd
  | _ => none

end Json

end NetQuery
