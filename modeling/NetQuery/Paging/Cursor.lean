import NetQuery.Json.Reader
import NetQuery.Text.Base64
import NetQuery.Text.Blank
import NetQuery.Text.Utf8

/-!
# Cursors

A cursor is a text that names a place in a result: the number of rows before it. To a reader of
pages it is opaque. Inside, it is a small JSON object with the one member `offset`, written in
base64, so that it can travel in a URL.
-/

namespace NetQuery

/-- Why a cursor cannot be followed. -/
inductive CursorFault where
  /-- There is no limit, so that there are no pages. -/
  | needsLimit
  /-- It is not written in base64. -/
  | notBase64
  /-- What is written holds no offset. -/
  | badPayload
deriving DecidableEq, Repr

/-- The message of a fault. -/
def CursorFault.message : CursorFault → String
  | .needsLimit => "a cursor requires a limit"
  | .notBase64 => "cursor is not valid base64"
  | .badPayload => "invalid cursor payload"

namespace Cursor

/-- The greatest offset. -/
def maxOffset : Nat := 0xffffffffffffffff

/-- The key of the offset. -/
def offsetKey : String := "offset"

/-- The payload of a cursor. -/
def payload (offset : Nat) : String := (Json.object [(offsetKey, .nat offset)]).write

/-- The cursor of an offset. -/
def encode (offset : Nat) : String :=
  String.ofList (Text.Base64.encode (Text.utf8 (payload offset)))

/-- The offset that a value starts with: an integer in range. -/
def offsetValue? : List JsonToken → Option Nat
  | .number (some (.int n)) :: _ => if 0 ≤ n && n.toNat ≤ maxOffset then some n.toNat else none
  | _ => none

/-- The offset among the members of an object. Every key has a value, one of them is the key of the
offset, and what the others hold does not matter. -/
def offsetMember? (members : List Json.Member) : Option Nat :=
  if members.all fun m => m.key.isSome then
    match members.filter fun m => m.key == some offsetKey with
    | [m] => offsetValue? m.after.tail
    | _ => none
  else none

/-- The offset in a payload, which is an object or an array of one element and fills the text. -/
def payloadOffset? : List JsonToken → Option Nat
  | .openBrace :: tokens =>
    match Json.objectMembers tokens with
    | (members, some []) => offsetMember? members
    | _ => none
  | .openBracket :: tokens =>
    match Json.arrayElements tokens with
    | ([element], some []) => offsetValue? element
    | _ => none
  | _ => none

/-- The offset of a cursor, blanks around it apart. -/
def decode (cursor : String) : Except CursorFault Nat :=
  match Text.Base64.decode? (Text.trimChars cursor.toList) with
  | none => .error .notBase64
  | some bytes =>
    match payloadOffset? (JsonToken.ofChars (Text.ofUtf8 bytes)) with
    | none => .error .badPayload
    | some offset => .ok offset

end Cursor

end NetQuery
