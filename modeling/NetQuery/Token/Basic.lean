import NetQuery.Number.Layout
import NetQuery.Query.Operator
import NetQuery.Text.Basic
import NetQuery.Text.Position

/-!
# Tokens

A query text is a sequence of keywords, names, literals, comparison signs, commas and parentheses.
Keywords are read in any case; names and literals keep theirs.
-/

namespace NetQuery

/-- A word with a meaning of its own. -/
inductive Keyword where
  | show
  | find
  | count
  | where
  | order
  | by
  | limit
  | latest
  | asc
  | desc
  | and
  | or
  | in
  | between
  | contains
  | is
  | not
  | null
  | like
  | true
  | false
  | today
  | yesterday
deriving DecidableEq, Repr

namespace Keyword

/-- All keywords. -/
def all : List Keyword :=
  [.show, .find, .count, .where, .order, .by, .limit, .latest, .asc, .desc, .and, .or, .in,
    .between, .contains, .is, .not, .null, .like, .true, .false, .today, .yesterday]

/-- The keyword in capitals. -/
def text : Keyword → String
  | .show => "SHOW"
  | .find => "FIND"
  | .count => "COUNT"
  | .where => "WHERE"
  | .order => "ORDER"
  | .by => "BY"
  | .limit => "LIMIT"
  | .latest => "LATEST"
  | .asc => "ASC"
  | .desc => "DESC"
  | .and => "AND"
  | .or => "OR"
  | .in => "IN"
  | .between => "BETWEEN"
  | .contains => "CONTAINS"
  | .is => "IS"
  | .not => "NOT"
  | .null => "NULL"
  | .like => "LIKE"
  | .true => "TRUE"
  | .false => "FALSE"
  | .today => "TODAY"
  | .yesterday => "YESTERDAY"

/-- The keyword that a word spells, in any case. -/
def ofWord? (word : String) : Option Keyword := all.find? fun k => Text.agree k.text word

end Keyword

/-- What a token is. -/
inductive TokenKind where
  /-- A word with a meaning of its own. -/
  | keyword (keyword : Keyword)
  /-- Any other word. -/
  | name (word : String)
  /-- A text literal, without its quotes and escapes. -/
  | text (value : String)
  /-- An integer literal. -/
  | int (value : Int)
  /-- A literal with a decimal point. -/
  | float (value : Float)
  /-- A comparison sign. -/
  | compare (comparator : Comparator)
  | comma
  | openParen
  | closeParen

/-- How a token is named in a message. -/
def TokenKind.describe : TokenKind → String
  | .keyword k => Text.concat ["keyword ", k.text]
  | .name word => Text.concat ["'", word, "'"]
  | .text value => Text.concat ["string '", value, "'"]
  | .int value => Text.concat ["integer ", toString value]
  | .float value => Text.concat ["number ", Number.Layout.message.write value]
  | .compare comparator => Text.concat ["operator '", comparator.text, "'"]
  | .comma => "','"
  | .openParen => "'('"
  | .closeParen => "')'"

/-- A token and the place of its first character. -/
structure Token where
  /-- What it is. -/
  kind : TokenKind
  /-- Where it starts. -/
  position : Position

/-- How the end of a text is named in a message. -/
def endOfInput : String := "end of input"

/-- The tokens of a text, and the place of its end. -/
structure TokenStream where
  /-- The tokens, in order. -/
  tokens : List Token
  /-- The place after the last character. -/
  finish : Position

end NetQuery
