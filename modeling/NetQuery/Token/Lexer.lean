import NetQuery.Number.Decimal
import NetQuery.Text.Letter
import NetQuery.Token.Basic

/-!
# From text to tokens

A text is read from the left. Blanks are passed over. Any other character starts a token, and the
longest run that can continue it belongs to it. `lexeme` says what a token is from its first
character and everything after it; `scan` walks over the text one character at a time, keeps count
of the place, and passes over the characters that a token has already taken.
-/

namespace NetQuery

/-- Why no token could be read. -/
inductive LexicalFault where
  /-- A text literal has no closing quote. -/
  | unterminatedText
  /-- An integer literal does not fit 64 bits. -/
  | integerOutOfRange (literal : String)
  /-- A run of digits and points is no number. -/
  | invalidNumber (literal : String)
  /-- No token starts with this character. -/
  | unexpected (character : Char)
deriving DecidableEq, Repr

/-- The message of a fault. -/
def LexicalFault.message : LexicalFault → String
  | .unterminatedText => "unterminated string literal"
  | .integerOutOfRange literal => Text.concat ["integer literal '", literal, "' is out of range"]
  | .invalidNumber literal => Text.concat ["invalid number literal '", literal, "'"]
  | .unexpected character => Text.concat ["unexpected character '", String.ofList [character], "'"]

/-- A fault and the place of the character that shows it. -/
structure LexicalError where
  /-- Where the token starts that could not be read. -/
  position : Position
  /-- Why. -/
  fault : LexicalFault
deriving DecidableEq, Repr

namespace Lexer

/-- The least integer literal. -/
def leastInt : Int := -0x8000000000000000

/-- The greatest integer literal. -/
def greatestInt : Int := 0x7fffffffffffffff

/-- A token, and how many characters after its first one it takes. -/
structure Lexeme where
  /-- What the token is. -/
  kind : TokenKind
  /-- The number of its characters after the first. -/
  more : Nat

/-- A character that may continue a word. -/
def continuesWord (c : Char) : Bool := Text.isLetterOrNumeral c || c = '_' || c = '.'

/-- A character that may start a word. -/
def startsWord (c : Char) : Bool := Text.isLetter c || c = '_'

/-- The rest of a text literal: its value and the number of characters up to and including the
closing quote. A backslash makes the next character part of the value, whatever it is. -/
def textTail (quote : Char) : List Char → Option (List Char × Nat)
  | [] => none
  | '\\' :: c :: cs => (textTail quote cs).map fun (value, n) => (c :: value, n + 2)
  | c :: cs =>
    if c = quote then some ([], 1)
    else (textTail quote cs).map fun (value, n) => (c :: value, n + 1)

/-- The longest run of digits and points in which every point stands before a digit. -/
def numberRun : List Char → List Char
  | [] => []
  | [c] => if Number.isDigit c then [c] else []
  | c :: d :: cs =>
    if Number.isDigit c || (c = '.' && Number.isDigit d) then c :: numberRun (d :: cs) else []

/-- What a run of digits and points is, after an optional minus sign. No point makes an integer, one
point a number with a fraction, and three points a network address, which is a text. -/
def numberKind (negative : Bool) (run : List Char) : Except LexicalFault TokenKind :=
  let literal := String.ofList (if negative then '-' :: run else run)
  match Text.splitOn '.' run with
  | [digits] =>
    let magnitude : Int := Number.value digits
    let n := if negative then -magnitude else magnitude
    if leastInt ≤ n && n ≤ greatestInt then .ok (.int n) else .error (.integerOutOfRange literal)
  | [whole, fraction] => .ok (.float (Number.Decimal.ofParts negative whole fraction 0).toFloat)
  | [_, _, _, _] => if negative then .error (.invalidNumber literal) else .ok (.text literal)
  | _ => .error (.invalidNumber literal)

/-- The token that starts with `c`, when `rest` follows. -/
def lexeme (c : Char) (rest : List Char) : Except LexicalFault Lexeme :=
  if c = '\'' || c = '"' then
    match textTail c rest with
    | some (value, n) => .ok ⟨.text (String.ofList value), n⟩
    | none => .error .unterminatedText
  else if c = '(' then .ok ⟨.openParen, 0⟩
  else if c = ')' then .ok ⟨.closeParen, 0⟩
  else if c = ',' then .ok ⟨.comma, 0⟩
  else if c = '=' then
    if rest.head? = some '=' then .ok ⟨.compare .eq, 1⟩ else .ok ⟨.compare .eq, 0⟩
  else if c = '!' then
    if rest.head? = some '=' then .ok ⟨.compare .ne, 1⟩ else .error (.unexpected c)
  else if c = '<' then
    if rest.head? = some '>' then .ok ⟨.compare .ne, 1⟩
    else if rest.head? = some '=' then .ok ⟨.compare .le, 1⟩
    else .ok ⟨.compare .lt, 0⟩
  else if c = '>' then
    if rest.head? = some '=' then .ok ⟨.compare .ge, 1⟩ else .ok ⟨.compare .gt, 0⟩
  else if c = '-' && rest.head?.any Number.isDigit then
    let run := numberRun rest
    (numberKind true run).map fun kind => ⟨kind, run.length⟩
  else if Number.isDigit c then
    let run := numberRun (c :: rest)
    (numberKind false run).map fun kind => ⟨kind, run.length - 1⟩
  else if startsWord c then
    let more := rest.takeWhile continuesWord
    let word := String.ofList (c :: more)
    let kind := match Keyword.ofWord? word with
      | some k => .keyword k
      | none => .name word
    .ok ⟨kind, more.length⟩
  else .error (.unexpected c)

/-- The tokens of a text that starts at `p`. The first `taken` characters belong to a token that has
been read already. -/
def scan : (taken : Nat) → (p : Position) → List Char → Except LexicalError TokenStream
  | _, p, [] => .ok ⟨[], p⟩
  | taken + 1, p, c :: cs => scan taken (p.after c) cs
  | 0, p, c :: cs =>
    if Text.isBlank c then scan 0 (p.after c) cs
    else match lexeme c cs with
      | .error fault => .error ⟨p, fault⟩
      | .ok l =>
        match scan l.more (p.after c) cs with
        | .error e => .error e
        | .ok stream => .ok ⟨⟨l.kind, p⟩ :: stream.tokens, stream.finish⟩

end Lexer

/-- The tokens of a query text. -/
def tokenize (text : String) : Except LexicalError TokenStream :=
  Lexer.scan 0 Position.start text.toList

end NetQuery
