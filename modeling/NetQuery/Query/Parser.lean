import NetQuery.Query.Basic
import NetQuery.Query.Field
import NetQuery.Token.Lexer

/-!
# From tokens to queries

The grammar, with keywords in capitals:

    query     = (SHOW | FIND) entity [where] [order] [limit] [LATEST] | COUNT entity [where]
    where     = WHERE chain
    chain     = condition ((AND | OR) condition)*
    condition = '(' chain ')'
              | field ( sign value | LIKE value | CONTAINS text | IN '(' value (',' value)* ')'
                      | BETWEEN value AND value | IS [NOT] NULL )
    field     = name | name '(' name (',' name)* ')'
    order     = ORDER BY field [ASC | DESC] (',' field [ASC | DESC])*
    limit     = LIMIT integer

One token of lookahead decides every choice, so each rule is a function from the tokens that are
left to what it read and the tokens that are then left. What is left gets shorter, and the result
carries the proof, so that a rule may be repeated. A fault keeps the tokens that were left when it
showed. -/

namespace NetQuery

/-- What the grammar asked for where it found something else. -/
inductive Expectation where
  | verb
  | entityName
  | keyword (keyword : Keyword)
  | fieldName
  | functionArgument
  | commaOrClose
  | comparisonOperator
  | literal
  | textAfterContains
  | listOpen
  | linkOrClose
  | integerAfterLimit
  | clauseOrEnd
  | whereOrEnd
deriving DecidableEq, Repr

/-- How an expectation is named in a message. -/
def Expectation.text : Expectation → String
  | .verb => "SHOW, FIND or COUNT"
  | .entityName => "entity name"
  | .keyword k => k.text
  | .fieldName => "field name"
  | .functionArgument => "function argument"
  | .commaOrClose => "',' or ')'"
  | .comparisonOperator => "comparison operator"
  | .literal => "literal value"
  | .textAfterContains => "string literal after CONTAINS"
  | .listOpen => "'(' to open a value list"
  | .linkOrClose => "AND, OR or ')'"
  | .integerAfterLimit => "integer after LIMIT"
  | .clauseOrEnd => "WHERE, ORDER BY, LIMIT, LATEST or end of query"
  | .whereOrEnd => "WHERE or end of query"

/-- Why the tokens are no query. -/
inductive GrammarFault where
  /-- The grammar asked for something else than the first of the tokens that are left. -/
  | expected (what : Expectation) (left : List Token)
  /-- The parenthesis at this place opens a group too many. -/
  | nesting (opening : Position)
  /-- The list that opens at this place is too long. -/
  | listLength (opening : Position)
  /-- The limit at this place is negative. -/
  | negativeLimit (position : Position)
  /-- The name at this place names no entity. -/
  | unknownEntity (name : String) (position : Position)

namespace Parser

/-- The greatest number of values in a list. -/
def maxListValues : Nat := 200

/-- The greatest number of groups inside one another. -/
def maxGroupDepth : Nat := 16

/-- What a rule read from the tokens `ts`, and the tokens that are left. -/
structure Parsed (α : Type) (ts : List Token) where
  /-- What was read. -/
  value : α
  /-- The tokens that are left. -/
  rest : List Token
  /-- At least one token was taken. -/
  shorter : rest.length < ts.length

/-- A rule of the grammar. -/
abbrev Rule (α : Type) : Type := (ts : List Token) → Except GrammarFault (Parsed α ts)

/-- The value that a single token stands for. -/
def literal? : TokenKind → Option Value
  | .text value => some (.text value)
  | .int value => some (.int value)
  | .float value => some (.float value)
  | .keyword .true => some (.bool true)
  | .keyword .false => some (.bool false)
  | .keyword .today => some (.keyword .today)
  | .keyword .yesterday => some (.keyword .yesterday)
  | _ => none

/-- A literal value. -/
def value : Rule Value
  | [] => .error (.expected .literal [])
  | t :: ts =>
    match literal? t.kind with
    | some v => .ok ⟨v, ts, Nat.lt_succ_self _⟩
    | none => .error (.expected .literal (t :: ts))

/-- The given keyword. -/
def keyword (k : Keyword) : Rule Unit
  | [] => .error (.expected (.keyword k) [])
  | ⟨.keyword k', p⟩ :: ts =>
    if k' = k then .ok ⟨(), ts, Nat.lt_succ_self _⟩
    else .error (.expected (.keyword k) (⟨.keyword k', p⟩ :: ts))
  | t :: ts => .error (.expected (.keyword k) (t :: ts))

/-- The values of a list after its opening parenthesis, up to and including the closing one. -/
def listTail : Rule (List Value)
  | [] => .error (.expected .literal [])
  | t :: ts =>
    match literal? t.kind with
    | none => .error (.expected .literal (t :: ts))
    | some v =>
      match ts with
      | ⟨.comma, _⟩ :: rest =>
        match listTail rest with
        | .error e => .error e
        | .ok r => .ok ⟨v :: r.value, r.rest, Nat.lt_add_right 2 r.shorter⟩
      | ⟨.closeParen, _⟩ :: rest => .ok ⟨[v], rest, Nat.lt_add_of_pos_right Nat.two_pos⟩
      | ts => .error (.expected .commaOrClose ts)

/-- A list of values in parentheses. -/
def valueList : Rule (List Value)
  | ⟨.openParen, p⟩ :: ts =>
    match listTail ts with
    | .error e => .error e
    | .ok r =>
      if maxListValues < r.value.length then .error (.listLength p)
      else .ok ⟨r.value, r.rest, Nat.lt_succ_of_lt r.shorter⟩
  | ts => .error (.expected .listOpen ts)

/-- The arguments of a call after its opening parenthesis, up to and including the closing one. -/
def argumentTail : Rule (List String)
  | ⟨.name arg, _⟩ :: ⟨.comma, _⟩ :: ts =>
    match argumentTail ts with
    | .error e => .error e
    | .ok r => .ok ⟨arg :: r.value, r.rest, Nat.lt_add_right 2 r.shorter⟩
  | ⟨.name arg, _⟩ :: ⟨.closeParen, _⟩ :: ts => .ok ⟨[arg], ts, Nat.lt_add_of_pos_right Nat.two_pos⟩
  | ⟨.name _, _⟩ :: ts => .error (.expected .commaOrClose ts)
  | ts => .error (.expected .functionArgument ts)

/-- A field: a column, or a call of a function on columns. -/
def field : Rule String
  | ⟨.name name, _⟩ :: ⟨.openParen, _⟩ :: ts =>
    match argumentTail ts with
    | .error e => .error e
    | .ok r => .ok ⟨FieldRef.call name r.value, r.rest, Nat.lt_add_right 2 r.shorter⟩
  | ⟨.name name, _⟩ :: ts => .ok ⟨name, ts, Nat.lt_succ_self _⟩
  | ts => .error (.expected .fieldName ts)

/-- The two bounds of a range. -/
def range : Rule Value := fun ts =>
  match value ts with
  | .error e => .error e
  | .ok low =>
    match keyword .and low.rest with
    | .error e => .error e
    | .ok link =>
      match value link.rest with
      | .error e => .error e
      | .ok high =>
        .ok ⟨.list [low.value, high.value], high.rest, by
          have := low.shorter; have := link.shorter; have := high.shorter; omega⟩

/-- The rest of a null check after `IS`. -/
def nullCheck : Rule Operator
  | ⟨.keyword .not, _⟩ :: ts =>
    match keyword .null ts with
    | .error e => .error e
    | .ok r => .ok ⟨.isNotNull, r.rest, Nat.lt_succ_of_lt r.shorter⟩
  | ts =>
    match keyword .null ts with
    | .error e => .error e
    | .ok r => .ok ⟨.isNull, r.rest, r.shorter⟩

/-- An operator and its operand. -/
def operation : Rule (Operator × Value)
  | ⟨.compare c, _⟩ :: ts =>
    match value ts with
    | .error e => .error e
    | .ok r => .ok ⟨(.compare c, r.value), r.rest, Nat.lt_succ_of_lt r.shorter⟩
  | ⟨.keyword .like, _⟩ :: ts =>
    match value ts with
    | .error e => .error e
    | .ok r => .ok ⟨(.like, r.value), r.rest, Nat.lt_succ_of_lt r.shorter⟩
  | ⟨.keyword .contains, _⟩ :: ⟨.text v, _⟩ :: ts =>
    .ok ⟨(.contains, .text v), ts, Nat.lt_add_of_pos_right Nat.two_pos⟩
  | ⟨.keyword .contains, _⟩ :: ts => .error (.expected .textAfterContains ts)
  | ⟨.keyword .in, _⟩ :: ts =>
    match valueList ts with
    | .error e => .error e
    | .ok r => .ok ⟨(.isIn, .list r.value), r.rest, Nat.lt_succ_of_lt r.shorter⟩
  | ⟨.keyword .between, _⟩ :: ts =>
    match range ts with
    | .error e => .error e
    | .ok r => .ok ⟨(.between, r.value), r.rest, Nat.lt_succ_of_lt r.shorter⟩
  | ⟨.keyword .is, _⟩ :: ts =>
    match nullCheck ts with
    | .error e => .error e
    | .ok r => .ok ⟨(r.value, .null), r.rest, Nat.lt_succ_of_lt r.shorter⟩
  | ts => .error (.expected .comparisonOperator ts)

/-- A comparison: a field, an operator and an operand. -/
def comparison : Rule Comparison := fun ts =>
  match field ts with
  | .error e => .error e
  | .ok f =>
    match operation f.rest with
    | .error e => .error e
    | .ok r => .ok ⟨⟨f.value, r.value.1, r.value.2⟩, r.rest, by
        have := f.shorter; have := r.shorter; omega⟩

/-- The link that a token stands for, between two conditions. -/
def link? : TokenKind → Option Link
  | .keyword .and => some .and
  | .keyword .or => some .or
  | _ => none

/-- The link between two conditions, if there is another condition. -/
def nextLink : (ts : List Token) → Option (Parsed Link ts)
  | [] => none
  | t :: ts => (link? t.kind).map fun link => ⟨link, ts, Nat.lt_succ_self _⟩

/-- A chain of conditions, each read by `condition`; `link` joins the first to what came before. -/
def chain (condition : Link → Rule Condition) (link : Link) : Rule (List Condition) := fun ts =>
  match condition link ts with
  | .error e => .error e
  | .ok c =>
    match nextLink c.rest with
    | none => .ok ⟨[c.value], c.rest, c.shorter⟩
    | some next =>
      match chain condition next.value next.rest with
      | .error e => .error e
      | .ok r => .ok ⟨c.value :: r.value, r.rest, by
          have := c.shorter; have := next.shorter; have := r.shorter; omega⟩
termination_by ts => ts.length
decreasing_by
  have := c.shorter
  have := next.shorter
  omega

/-- The parenthesis that closes a group. -/
def groupEnd : Rule Unit
  | ⟨.closeParen, _⟩ :: ts => .ok ⟨(), ts, Nat.lt_succ_self _⟩
  | ts => .error (.expected .linkOrClose ts)

/-- A condition that is a comparison. -/
def comparisonCondition (link : Link) : Rule Condition := fun ts =>
  match comparison ts with
  | .error e => .error e
  | .ok r => .ok ⟨.compare link r.value, r.rest, r.shorter⟩

/-- One condition, with room for `room` groups inside one another. -/
def condition : (room : Nat) → Link → Rule Condition
  | 0, _, ⟨.openParen, p⟩ :: _ => .error (.nesting p)
  | room + 1, link, ⟨.openParen, _⟩ :: ts =>
    match chain (condition room) .first ts with
    | .error e => .error e
    | .ok members =>
      match groupEnd members.rest with
      | .error e => .error e
      | .ok close => .ok ⟨.group link members.value, close.rest,
          Nat.lt_succ_of_lt (Nat.lt_trans close.shorter members.shorter)⟩
  | _, link, ts => comparisonCondition link ts

/-- The conditions of a query. -/
def conditions : Rule (List Condition) := chain (condition maxGroupDepth) .first

/-- The direction of an ordering, which is ascending unless a keyword says otherwise. -/
def direction : List Token → Direction × List Token
  | ⟨.keyword .desc, _⟩ :: ts => (.descending, ts)
  | ⟨.keyword .asc, _⟩ :: ts => (.ascending, ts)
  | ts => (.ascending, ts)

/-- Reading a direction leaves no more tokens than there were. -/
theorem length_direction_le (ts : List Token) : (direction ts).2.length ≤ ts.length := by
  unfold direction
  split <;> simp only [List.length_cons] <;> omega

/-- The comma between two keys, if there is another key. -/
def nextKey : (ts : List Token) → Option (Parsed Unit ts)
  | ⟨.comma, _⟩ :: ts => some ⟨(), ts, Nat.lt_succ_self _⟩
  | _ => none

/-- The keys of an ordering. -/
def orderItems : Rule (List OrderItem) := fun ts =>
  match field ts with
  | .error e => .error e
  | .ok f =>
    let d := direction f.rest
    have shorter : d.2.length < ts.length := Nat.lt_of_le_of_lt (length_direction_le _) f.shorter
    match nextKey d.2 with
    | none => .ok ⟨[⟨f.value, d.1⟩], d.2, shorter⟩
    | some comma =>
      match orderItems comma.rest with
      | .error e => .error e
      | .ok r => .ok ⟨⟨f.value, d.1⟩ :: r.value, r.rest, by
          have := comma.shorter; have := r.shorter; omega⟩
termination_by ts => ts.length
decreasing_by
  have := comma.shorter
  omega

/-- The number of a limit. -/
def limit : Rule Nat
  | ⟨.int n, p⟩ :: ts =>
    if 0 ≤ n then .ok ⟨n.toNat, ts, Nat.lt_succ_self _⟩ else .error (.negativeLimit p)
  | ts => .error (.expected .integerAfterLimit ts)

/-- What a query asks for. -/
def verb : Rule QueryKind
  | ⟨.keyword .show, _⟩ :: ts => .ok ⟨.records, ts, Nat.lt_succ_self _⟩
  | ⟨.keyword .find, _⟩ :: ts => .ok ⟨.records, ts, Nat.lt_succ_self _⟩
  | ⟨.keyword .count, _⟩ :: ts => .ok ⟨.count, ts, Nat.lt_succ_self _⟩
  | ts => .error (.expected .verb ts)

/-- The entity of a query. -/
def entity : Rule Entity
  | ⟨.name name, p⟩ :: ts =>
    match Entity.ofName? name with
    | some e => .ok ⟨e, ts, Nat.lt_succ_self _⟩
    | none => .error (.unknownEntity name p)
  | ts => .error (.expected .entityName ts)

/-- The conditions, if the keyword that starts them is there. -/
def whereClause : List Token → Except GrammarFault (List Condition × List Token)
  | ⟨.keyword .where, _⟩ :: ts =>
    match conditions ts with
    | .error e => .error e
    | .ok r => .ok (r.value, r.rest)
  | ts => .ok ([], ts)

/-- The ordering, if the keyword that starts it is there. -/
def orderClause : List Token → Except GrammarFault (List OrderItem × List Token)
  | ⟨.keyword .order, _⟩ :: ts =>
    match keyword .by ts with
    | .error e => .error e
    | .ok r =>
      match orderItems r.rest with
      | .error e => .error e
      | .ok items => .ok (items.value, items.rest)
  | ts => .ok ([], ts)

/-- The limit, if the keyword that starts it is there. -/
def limitClause : List Token → Except GrammarFault (Option Nat × List Token)
  | ⟨.keyword .limit, _⟩ :: ts =>
    match limit ts with
    | .error e => .error e
    | .ok r => .ok (some r.value, r.rest)
  | ts => .ok (none, ts)

/-- The last word, if it is there. -/
def latestClause : List Token → Bool × List Token
  | ⟨.keyword .latest, _⟩ :: ts => (true, ts)
  | ts => (false, ts)

/-- The clauses of a query after its entity, up to the end. -/
def clauses (kind : QueryKind) (entity : Entity) (ts : List Token) :
    Except GrammarFault Query := do
  let (conditions, ts) ← whereClause ts
  match kind with
  | .count =>
    if ts.isEmpty then .ok ⟨kind, entity, conditions, [], none, false, none⟩
    else .error (.expected .whereOrEnd ts)
  | .records =>
    let (orderBy, ts) ← orderClause ts
    let (limit, ts) ← limitClause ts
    let (latest, ts) := latestClause ts
    if ts.isEmpty then .ok ⟨kind, entity, conditions, orderBy, limit, latest, none⟩
    else .error (.expected .clauseOrEnd ts)

/-- A whole query. -/
def query (ts : List Token) : Except GrammarFault Query := do
  let kind ← verb ts
  let entity ← entity kind.rest
  clauses kind.value entity.value entity.rest

end Parser

/-- Why a text is no query. -/
inductive SyntaxFault where
  /-- A token could not be read. -/
  | lexical (fault : LexicalFault)
  /-- The grammar asked for something else than this token; none stands for the end of the text. -/
  | expected (what : Expectation) (found : Option TokenKind)
  /-- There are too many groups inside one another. -/
  | nesting
  /-- A list is too long. -/
  | listLength
  /-- A limit is negative. -/
  | negativeLimit

/-- The message of a fault. -/
def SyntaxFault.message : SyntaxFault → String
  | .lexical fault => fault.message
  | .expected what found =>
    Text.concat
      ["expected ", what.text, ", found ", (found.map TokenKind.describe).getD endOfInput]
  | .nesting =>
    Text.concat ["condition groups nest at most ", toString Parser.maxGroupDepth, " deep"]
  | .listLength =>
    Text.concat ["value lists support at most ", toString Parser.maxListValues, " values"]
  | .negativeLimit => "limit must be a non-negative integer"

/-- Why a text could not be read as a query, and where this shows. -/
inductive ParseError where
  /-- The text is no query. -/
  | syntaxError (position : Position) (fault : SyntaxFault)
  /-- The text is a query of something that is not known. -/
  | unknownEntity (name : String) (position : Position)

/-- A fault of the grammar with its place in the text. The end of the text stands in for a token
that is not there. -/
def GrammarFault.toParseError (finish : Position) : GrammarFault → ParseError
  | .expected what left =>
    .syntaxError ((left.head?.map Token.position).getD finish)
      (.expected what (left.head?.map Token.kind))
  | .nesting position => .syntaxError position .nesting
  | .listLength position => .syntaxError position .listLength
  | .negativeLimit position => .syntaxError position .negativeLimit
  | .unknownEntity name position => .unknownEntity name position

/-- The query of a sequence of tokens. -/
def TokenStream.query (stream : TokenStream) : Except ParseError Query :=
  (Parser.query stream.tokens).mapError (GrammarFault.toParseError stream.finish)

/-- The query that a text spells. -/
def Query.parse (text : String) : Except ParseError Query :=
  match tokenize text with
  | .error e => .error (.syntaxError e.position (.lexical e.fault))
  | .ok stream => stream.query

end NetQuery
