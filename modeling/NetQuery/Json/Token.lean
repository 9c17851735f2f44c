import NetQuery.Json.Basic
import NetQuery.Number.Scaled

/-!
# JSON tokens

A JSON text is cut into tokens before anything is made of it. The tokens end where the text ends, or
with `bad` at the first place where no token can be read; what stands before that place keeps its
meaning. A text or a number can be well formed and still have no value: a text with half of a
surrogate pair or with a byte that is no character, and a number that is too large. Such a token has
no value, and only a reader that asks for the value notices.
-/

namespace NetQuery

/-- A token of a JSON text. -/
inductive JsonToken where
  | openBrace
  | closeBrace
  | openBracket
  | closeBracket
  | comma
  | colon
  | null
  | bool (value : Bool)
  | number (value : Option JsonNumber)
  | text (value : Option String)
  /-- No token could be read here. -/
  | bad

namespace JsonToken

/-- The characters between tokens. -/
def isBlank (c : Option Char) : Bool :=
  c = some ' ' || c = some '\n' || c = some '\t' || c = some '\r'

/-- The value of a hexadecimal digit. -/
def hexValue? : Option Char → Option Nat
  | none => none
  | some c =>
    if '0' ≤ c && c ≤ '9' then some (c.toNat - '0'.toNat)
    else if 'a' ≤ c && c ≤ 'f' then some (c.toNat - 'a'.toNat + 10)
    else if 'A' ≤ c && c ≤ 'F' then some (c.toNat - 'A'.toNat + 10)
    else none

/-- The value of four hexadecimal digits. -/
def hex4? (a b c d : Option Char) : Option Nat := do
  let a ← hexValue? a
  let b ← hexValue? b
  let c ← hexValue? c
  let d ← hexValue? d
  some (((a * 16 + b) * 16 + c) * 16 + d)

/-- The character of an escape with one letter. -/
def escaped? : Char → Option Char
  | '"' => some '"'
  | '\\' => some '\\'
  | '/' => some '/'
  | 'b' => some (Char.ofNat 0x8)
  | 'f' => some (Char.ofNat 0xc)
  | 'n' => some '\n'
  | 'r' => some '\r'
  | 't' => some '\t'
  | _ => none

/-- The first half of a surrogate pair. -/
def isHigh (n : Nat) : Bool := 0xd800 ≤ n && n < 0xdc00

/-- The second half of a surrogate pair. -/
def isLow (n : Nat) : Bool := 0xdc00 ≤ n && n < 0xe000

/-- The character of a surrogate pair. -/
def pair (high low : Nat) : Char := Char.ofNat (0x10000 + (high - 0xd800) * 0x400 + (low - 0xdc00))

/-- The rest of a text: its value, if it has one, and the number of characters up to and including
the closing quote. -/
def textTail : List (Option Char) → Option (Option (List Char) × Nat)
  | [] => none
  | some '"' :: _ => some (some [], 1)
  | some '\\' :: some 'u' :: a :: b :: c :: d :: rest =>
    match hex4? a b c d with
    | none => none
    | some n =>
      if isHigh n then
        match rest with
        | some '\\' :: some 'u' :: a' :: b' :: c' :: d' :: rest' =>
          match hex4? a' b' c' d' with
          | none => none
          | some m =>
            (textTail rest').map fun (value, count) =>
              (if isLow m then value.map (pair n m :: ·) else none, count + 12)
        | rest => (textTail rest).map fun (_, count) => (none, count + 6)
      else
        (textTail rest).map fun (value, count) =>
          (if isLow n then none else value.map (Char.ofNat n :: ·), count + 6)
  | some '\\' :: some e :: rest =>
    match escaped? e with
    | none => none
    | some c => (textTail rest).map fun (value, count) => (value.map (c :: ·), count + 2)
  | some '\\' :: _ => none
  | some c :: rest =>
    if c.toNat < 0x20 then none
    else (textTail rest).map fun (value, count) => (value.map (c :: ·), count + 1)
  | none :: rest => (textTail rest).map fun (_, count) => (none, count + 1)

/-- The value of a number. An integer that does not fit, and negative zero, are binary64 numbers; a
number that comes out infinite has no value. -/
def numberValue (negative : Bool) (whole : List Char) (fraction : Option (List Char))
    (exponent : Option Int) : Option JsonNumber :=
  let scaled := Number.Scaled.ofParts whole (fraction.getD []) (exponent.getD 0)
  let float := (scaled.toFloat? negative).map JsonNumber.float
  match fraction, exponent with
  | none, none =>
    let n := Number.value whole
    if negative then if 0 < n && n ≤ 0x8000000000000000 then some (.int (-n)) else float
    else if n ≤ 0xffffffffffffffff then some (.int n) else float
  | _, _ => float

/-- The number at the start of a run of characters: its value, if it has one, and its length. The
whole part has no leading zero, and there is a digit after a point and in an exponent. -/
def numberAt (run : List Char) : Option (Option JsonNumber × Nat) :=
  let (negative, cs) := match run with
    | '-' :: cs => (true, cs)
    | cs => (false, cs)
  let whole := cs.takeWhile Number.isDigit
  let cs := cs.dropWhile Number.isDigit
  if whole.isEmpty || (whole.head? = some '0' && 1 < whole.length) then none
  else
    let (fraction, cs) := match cs with
      | '.' :: cs => (some (cs.takeWhile Number.isDigit), cs.dropWhile Number.isDigit)
      | cs => (none, cs)
    if fraction = some [] then none
    else
      match cs with
      | 'e' :: cs | 'E' :: cs =>
        match Number.exponentPart cs with
        | none => none
        | some (e, rest) => some (numberValue negative whole fraction e, run.length - rest.length)
      | cs => some (numberValue negative whole fraction none, run.length - cs.length)

/-- A character that may stand in a number. -/
def inNumber (c : Char) : Bool :=
  Number.isDigit c || c = '-' || c = '+' || c = '.' || c = 'e' || c = 'E'

/-- The characters up to the first one that cannot stand in a number. -/
def numberRun : List (Option Char) → List Char
  | some c :: cs => if inNumber c then c :: numberRun cs else []
  | _ => []

/-- A fixed word, given without its first character. -/
def word (token : JsonToken) (tail : String) (rest : List (Option Char)) : JsonToken × Nat :=
  if rest.take tail.length = tail.toList.map some then (token, tail.length) else (bad, 0)

/-- The token that starts with `c`, when `rest` follows, and the number of characters after the
first one that it takes. -/
def lexeme (c : Char) (rest : List (Option Char)) : JsonToken × Nat :=
  match c with
  | '\x7b' => (openBrace, 0)
  | '\x7d' => (closeBrace, 0)
  | '[' => (openBracket, 0)
  | ']' => (closeBracket, 0)
  | ',' => (comma, 0)
  | ':' => (colon, 0)
  | 'n' => word null "ull" rest
  | 't' => word (bool true) "rue" rest
  | 'f' => word (bool false) "alse" rest
  | '"' =>
    match textTail rest with
    | some (value, count) => (text (value.map String.ofList), count)
    | none => (bad, 0)
  | c =>
    if Number.isDigit c || c = '-' then
      match numberAt (numberRun (some c :: rest)) with
      | some (value, count) => (number value, count - 1)
      | none => (bad, 0)
    else (bad, 0)

/-- The tokens of a text. The first `taken` characters belong to a token that has been read
already. -/
def scan : (taken : Nat) → List (Option Char) → List JsonToken
  | _, [] => []
  | taken + 1, _ :: cs => scan taken cs
  | 0, none :: _ => [bad]
  | 0, some c :: cs =>
    if isBlank (some c) then scan 0 cs
    else match lexeme c cs with
      | (bad, _) => [bad]
      | (token, more) => token :: scan more cs

/-- The tokens of a text. -/
def ofChars (cs : List (Option Char)) : List JsonToken := scan 0 cs

end JsonToken

end NetQuery
