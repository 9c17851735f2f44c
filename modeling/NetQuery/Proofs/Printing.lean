import NetQuery.Proofs.Compiling
import NetQuery.Proofs.Formed
import NetQuery.Proofs.Lexing

/-!
# Printing queries

A query can be written down as a text, word by word and with one space between words: keywords in
capitals, an entity by its canonical name, fields as the query keeps them. Reading that text gives
the query back. The text that a query came from may have looked quite different, so the proof does
not compare texts: it takes the derivation of the first text, rule by rule, and turns it into one for
the tokens of the printed text. All that the tokens of the first text bring in is that their names
are words and that their integers fit 64 bits.
-/

namespace NetQuery

/-! ## The printer -/

/-- A scalar as one word. An operand that is no scalar has no word of its own. -/
def Value.word : Value → String
  | .text value => Dialect.quote value
  | .bool true => Keyword.true.text
  | .bool false => Keyword.false.text
  | .int value => toString value
  | .float value => Number.Layout.literal.write value
  | .keyword .today => Keyword.today.text
  | .keyword .yesterday => Keyword.yesterday.text
  | .list _ | .null => ""

/-- The scalars of an operand, with `separator` between neighbours. -/
def Value.words (separator : String) (value : Value) : List String :=
  List.intercalate [separator] (value.scalars.map fun scalar => [scalar.word])

/-- An operator and its operand. -/
def Operator.words : Operator → Value → List String
  | .compare comparator, value => [comparator.text, value.word]
  | .like, value => [Keyword.like.text, value.word]
  | .contains, value => [Keyword.contains.text, value.word]
  | .isIn, value => Keyword.in.text :: "(" :: (value.words "," ++ [")"])
  | .between, value => Keyword.between.text :: value.words Keyword.and.text
  | .isNull, _ => [Keyword.is.text, Keyword.null.text]
  | .isNotNull, _ => [Keyword.is.text, Keyword.not.text, Keyword.null.text]

/-- The keyword of a link. -/
def Link.keyword? : Link → Option Keyword
  | .first => none
  | .and => some .and
  | .or => some .or

/-- The tokens of a link. -/
def Link.kinds (link : Link) : List TokenKind := link.keyword?.toList.map .keyword

/-- The keyword of a link, as a word before a condition. -/
def Link.words (link : Link) : List String := link.keyword?.toList.map Keyword.text

mutual

/-- A condition, with the keyword that joins it to the ones before it. -/
def Condition.words : Condition → List String
  | .compare link c => link.words ++ c.field :: c.operator.words c.value
  | .group link members => link.words ++ "(" :: (wordsOf members ++ [")"])

/-- A chain of conditions. -/
def wordsOf : List Condition → List String
  | [] => []
  | c :: cs => c.words ++ wordsOf cs

end

/-- The keyword of a direction. -/
def Direction.keyword : Direction → Keyword
  | .ascending => .asc
  | .descending => .desc

/-- A key of an ordering. -/
def OrderItem.words (item : OrderItem) : List String := [item.field, item.direction.keyword.text]

/-- The keyword that says what is asked for. -/
def QueryKind.keyword : QueryKind → Keyword
  | .records => .show
  | .count => .count

/-- The clause of the conditions. -/
def whereWords (conditions : List Condition) : List String :=
  if conditions.isEmpty then [] else Keyword.where.text :: wordsOf conditions

/-- The clause of the ordering. -/
def orderWords (items : List OrderItem) : List String :=
  if items.isEmpty then []
  else Keyword.order.text :: Keyword.by.text :: List.intercalate [","] (items.map OrderItem.words)

/-- The clause of the limit. -/
def limitWords (limit : Option Nat) : List String :=
  limit.elim [] fun n => [Keyword.limit.text, toString n]

/-- The last word. -/
def latestWords (latest : Bool) : List String := if latest then [Keyword.latest.text] else []

namespace Query

/-- The words of a query. -/
def words (q : Query) : List String :=
  q.kind.keyword.text :: q.entity.name ::
    (whereWords q.conditions ++
      (orderWords q.orderBy ++ (limitWords q.limit ++ latestWords q.latest)))

/-- A query as a text. -/
def print (q : Query) : String := Text.join " " q.words

end Query

/-- No literal of a comparison is a number with a fraction. -/
def Comparison.FloatFree (c : Comparison) : Prop := ∀ v ∈ c.value.scalars, ¬ Compiler.isFloat v

instance (c : Comparison) : Decidable c.FloatFree :=
  inferInstanceAs (Decidable (∀ v ∈ c.value.scalars, ¬ Compiler.isFloat v))

/-- No literal of a query is a number with a fraction. -/
def Query.FloatFree (q : Query) : Prop := ∀ c ∈ comparisonsOf q.conditions, c.FloatFree

instance (q : Query) : Decidable q.FloatFree :=
  inferInstanceAs (Decidable (∀ c ∈ comparisonsOf q.conditions, c.FloatFree))

/-! ## Reading the words back -/

namespace Lexer

/-- An opening parenthesis is a token of its own, whatever follows. -/
theorem Scans.openParen {cs : List Char} {kinds : List TokenKind} (h : Scans cs kinds) :
    Scans ('(' :: cs) (.openParen :: kinds) := by
  rw [← List.nil_append cs]
  exact h.token (by decide) rfl

theorem readsAs_openParen : ReadsAs "(" [.openParen] :=
  fun _ _ _ h => h.openParen

theorem readsAs_closeParen : ReadsAs ")" [.closeParen] :=
  fun _ _ _ h => h.token (by decide) rfl

theorem readsAs_comma : ReadsAs "," [.comma] :=
  fun _ _ _ h => h.token (by decide) rfl

theorem readsAs_comparator (c : Comparator) : ReadsAs c.text [.compare c] := by
  intro rest more hrest h
  have hcases : rest = [] ∨ ∃ tail, rest = ' ' :: tail := by
    cases rest with
    | nil => exact Or.inl rfl
    | cons c tail => exact Or.inr ⟨tail, by rw [hrest c rfl]⟩
  have hsign : ∀ {first : Char} {others : List Char}, c.text.toList = first :: others →
      Text.isBlank first = false →
      lexeme first (others ++ rest) = .ok ⟨.compare c, others.length⟩ →
      Scans (c.text.toList ++ rest) (.compare c :: more) := by
    intro first others htext hblank hl
    rw [htext]
    exact h.token hblank hl
  cases c
  all_goals refine hsign rfl (by decide) ?_
  all_goals rcases hcases with rfl | ⟨tail, rfl⟩ <;> rfl

/-- One more item at the front of a list with separators. -/
theorem Spells.separated {separator : String} {k : TokenKind} {ws : List String}
    {wss : List (List String)} {ks ls : List TokenKind} (hseparator : ReadsAs separator [k])
    (hw : Spells ws ks) (hne : wss ≠ []) (hs : Spells (List.intercalate [separator] wss) ls) :
    Spells (List.intercalate [separator] (ws :: wss)) (ks ++ k :: ls) := by
  obtain ⟨vs, wss, rfl⟩ := List.exists_cons_of_ne_nil hne
  have hwords : List.intercalate [separator] (ws :: vs :: wss) =
      ws ++ separator :: List.intercalate [separator] (vs :: wss) := by simp [List.intercalate]
  rw [hwords]
  exact hw.append (.cons hseparator hs)

end Lexer

/-- The keywords in small letters. -/
theorem Keyword.map_lower_text : Keyword.all.map (fun k => Text.lower k.text) =
    ["show", "find", "count", "where", "order", "by", "limit", "latest", "asc", "desc", "and", "or",
      "in", "between", "contains", "is", "not", "null", "like", "true", "false", "today",
      "yesterday"] := by
  decide +kernel

theorem Keyword.ofWord?_eq_none_iff {word : String} : Keyword.ofWord? word = none ↔
    Text.lower word ∉ Keyword.all.map fun k => Text.lower k.text := by
  simp [Keyword.ofWord?, Text.agree]

/-- An entity can be named by its canonical name: it is no keyword. -/
theorem Entity.isName_name (e : Entity) : Lexer.IsName e.name where
  ne_nil := by cases e <;> decide
  start := by
    have hstart : e.name.toList.head?.all Lexer.startsWord := by cases e <;> decide +kernel
    simpa [Option.all_eq_true] using hstart
  word := by
    have hword : e.name.toList.all Lexer.continuesWord := by cases e <;> decide +kernel
    exact List.all_eq_true.1 hword
  noKeyword := by
    have hlower : Text.lower e.name = e.name := by cases e <;> decide +kernel
    rw [Keyword.ofWord?_eq_none_iff, Keyword.map_lower_text, hlower]
    cases e <;> decide

theorem Entity.ofName?_name (e : Entity) : Entity.ofName? e.name = some e := by
  cases e <;> decide +kernel

namespace Grammar

open Lexer

/-- Tokens that can be written down again: names are words, and integers fit 64 bits. -/
structure Legible (ks : List TokenKind) : Prop where
  named : Named ks
  fits : ∀ n, TokenKind.int n ∈ ks → leastInt ≤ n ∧ n ≤ greatestInt

variable {ks ls : List TokenKind}

theorem Legible.left (h : Legible (ks ++ ls)) : Legible ks :=
  ⟨h.named.left, fun n hn => h.fits n (List.mem_append_left _ hn)⟩

theorem Legible.right (h : Legible (ks ++ ls)) : Legible ls :=
  ⟨h.named.right, fun n hn => h.fits n (List.mem_append_right _ hn)⟩

theorem Legible.tail {k : TokenKind} (h : Legible (k :: ks)) : Legible ks :=
  ⟨h.named.tail, fun n hn => h.fits n (List.mem_cons_of_mem _ hn)⟩

theorem legible_of_tokenize {text : String} {stream : TokenStream}
    (h : tokenize text = .ok stream) : Legible (stream.tokens.map Token.kind) where
  named := by
    intro w hw
    obtain ⟨t, ht, hkind⟩ := List.mem_map.1 hw
    exact tokenize_name h t ht w hkind
  fits := by
    intro n hn
    obtain ⟨t, ht, hkind⟩ := List.mem_map.1 hn
    obtain ⟨c, rest, l, hl, hl'⟩ := scan_lexeme h t ht
    exact lexeme_int hl (hl'.trans hkind)

/-! ## Fields -/

/-- The names of a list of arguments are found between the commas. -/
theorem Arguments.scans {args : List String} (h : Arguments ks args) (hks : Named ks)
    {rest : List Char} (hrest : ∀ c ∈ rest.head?, continuesWord c = false)
    (hscans : Scans rest ls) : Scans ((Text.join ", " args).toList ++ rest) (ks ++ ls) := by
  induction h with
  | last arg => exact hscans.name hks.head hrest
  | @more arg ks args hargs ih =>
    have hjoin : (Text.join ", " (arg :: args)).toList ++ rest =
        arg.toList ++ ',' :: ' ' :: ((Text.join ", " args).toList ++ rest) := by
      rw [Text.toList_join_cons _ _ (hargs.isName hks.tail.tail).1]
      simp
    have hcomma : Scans (',' :: ' ' :: ((Text.join ", " args).toList ++ rest))
        (.comma :: (ks ++ ls)) :=
      readsAs_comma (by simp) ((ih hks.tail.tail).blank (by decide))
    rw [hjoin]
    exact hcomma.name hks.head (continuesWord_of_cons (by decide) _)

/-- A call keeps the name of its function in small letters, so its tokens may change. -/
theorem Field.respelled {f : String} (h : Field ks f) (hks : Named ks) :
    ∃ ls, ReadsAs f ls ∧ Field ls f := by
  cases h with
  | column => exact ⟨_, readsAs_name hks.head, .column _⟩
  | @call name ks args hargs =>
    have hcall : FieldRef.call (Text.lower name) args = FieldRef.call name args := by
      simp [FieldRef.call, lower_lower]
    have hfield := Field.call (Text.lower name) hargs
    rw [hcall] at hfield
    refine ⟨_, ?_, hfield⟩
    intro rest more hrest h
    have htext : (FieldRef.call name args).toList ++ rest =
        (Text.lower name).toList ++ '(' :: ((Text.join ", " args).toList ++ ')' :: rest) := by
      simp [FieldRef.call]
    have hclose : Scans (')' :: rest) (.closeParen :: more) := readsAs_closeParen hrest h
    have hinside := hargs.scans hks.tail.tail.left (continuesWord_of_cons (by decide) _) hclose
    have hcall := hinside.openParen.name hks.head.lower (continuesWord_of_cons (by decide) _)
    rw [htext]
    simpa using hcall

/-! ## Operands -/

theorem Literal.readsAs {k : TokenKind} {v : Value} (h : Literal k v) (hk : Legible (k :: ks))
    (hfloat : ¬ Compiler.isFloat v) : ReadsAs v.word [k] := by
  cases h with
  | text s => exact readsAs_quote s
  | int n =>
    obtain ⟨hleast, hgreatest⟩ := hk.fits n List.mem_cons_self
    exact readsAs_int hleast hgreatest
  | float x => exact absurd rfl hfloat
  | true => exact readsAs_keyword .true
  | false => exact readsAs_keyword .false
  | today => exact readsAs_keyword .today
  | yesterday => exact readsAs_keyword .yesterday

theorem Literal.scalars {k : TokenKind} {v : Value} (h : Literal k v) : v.scalars = [v] := by
  cases h <;> rfl

theorem Values.spells {vs : List Value} (h : Values ks vs) (hks : Legible ks)
    (hfloat : ∀ v ∈ vs, ¬ Compiler.isFloat v) :
    Spells (List.intercalate [","] (vs.map fun v => [v.word])) ks := by
  induction h with
  | last hv => exact .single (hv.readsAs hks (hfloat _ List.mem_cons_self))
  | more hv hvs ih =>
    have hword := hv.readsAs hks (hfloat _ List.mem_cons_self)
    have hwords := ih hks.tail.tail fun v hv => hfloat v (List.mem_cons_of_mem _ hv)
    exact Spells.separated readsAs_comma (.single hword) (by simpa using hvs.isScalar.1) hwords

/-- An operation is printed with the tokens that it came from. -/
theorem Operation.spells {op : Operator} {v : Value} (h : Operation ks op v) (hks : Legible ks)
    (hfloat : ∀ s ∈ v.scalars, ¬ Compiler.isFloat s) : Spells (op.words v) ks := by
  cases h with
  | compare c hv =>
    have hword := hv.readsAs hks.tail (hfloat v (by simp [hv.scalars]))
    exact .cons (readsAs_comparator c) (.single hword)
  | like hv =>
    have hword := hv.readsAs hks.tail (hfloat v (by simp [hv.scalars]))
    exact .cons (readsAs_keyword .like) (.single hword)
  | contains s => exact .cons (readsAs_keyword .contains) (.single (readsAs_quote s))
  | isIn hvs _ =>
    have hwords := hvs.spells hks.tail.tail.left hfloat
    exact .cons (readsAs_keyword .in)
      (.cons readsAs_openParen (hwords.append (.single readsAs_closeParen)))
  | @between _ _ low high hlow hhigh =>
    have hlow := hlow.readsAs hks.tail (hfloat low (by simp [Value.scalars]))
    have hhigh := hhigh.readsAs hks.tail.tail.tail (hfloat high (by simp [Value.scalars]))
    exact .cons (readsAs_keyword .between)
      (.separated (readsAs_keyword .and) (.single hlow) (by simp) (.single hhigh))
  | isNull => exact .cons (readsAs_keyword .is) (.single (readsAs_keyword .null))
  | isNotNull =>
    exact .cons (readsAs_keyword .is)
      (.cons (readsAs_keyword .not) (.single (readsAs_keyword .null)))

/-! ## Conditions -/

theorem spells_link (link : Link) : Spells link.words link.kinds := by
  cases link with
  | first => exact .nil
  | and => exact .single (readsAs_keyword .and)
  | or => exact .single (readsAs_keyword .or)

theorem Connective.kinds {k : TokenKind} {link : Link} (h : Connective k link) :
    link.kinds = [k] := by
  cases h <;> rfl

mutual

/-- A condition is read back after the keyword of its link. -/
theorem Entry.respelled {link : Link} {ks : List TokenKind} {c : Condition} (h : Entry link ks c)
    (hks : Legible ks) (hfloat : ∀ d ∈ c.comparisons, d.FloatFree) :
    ∃ ls, Spells c.words (link.kinds ++ ls) ∧ Entry link ls c := by
  cases h with
  | compare hfield hop =>
    obtain ⟨ls, hname, hfield⟩ := hfield.respelled hks.left.named
    have hwords := hop.spells hks.right (hfloat _ List.mem_cons_self)
    exact ⟨_, (spells_link link).append (.cons hname hwords), .compare hfield hop⟩
  | group hmembers =>
    obtain ⟨ls, hwords, hmembers⟩ := hmembers.respelled hks.tail.left
      (by simpa [Condition.comparisons] using hfloat)
    have hgroup := hwords.append (.single readsAs_closeParen)
    exact ⟨_, (spells_link link).append (.cons readsAs_openParen hgroup), .group hmembers⟩

theorem Chain.respelled {link : Link} {ks : List TokenKind} {cs : List Condition}
    (h : Chain link ks cs) (hks : Legible ks) (hfloat : ∀ d ∈ comparisonsOf cs, d.FloatFree) :
    ∃ ls, Spells (wordsOf cs) (link.kinds ++ ls) ∧ Chain link ls cs := by
  cases h with
  | last hc =>
    obtain ⟨ls, hwords, hc⟩ := hc.respelled hks (by simpa [comparisonsOf] using hfloat)
    exact ⟨ls, by simpa [wordsOf] using hwords, .last hc⟩
  | more hc hk hcs =>
    have hboth := List.forall_mem_append.1 hfloat
    obtain ⟨ls, hwords, hc⟩ := hc.respelled hks.left hboth.1
    obtain ⟨ms, hmore, hcs⟩ := hcs.respelled hks.right.tail hboth.2
    rw [hk.kinds] at hmore
    refine ⟨ls ++ _ :: ms, ?_, .more hc hk hcs⟩
    rw [← List.append_assoc]
    exact hwords.append hmore

end

theorem Chain.ne_nil {link : Link} {cs : List Condition} (h : Chain link ks cs) : cs ≠ [] := by
  cases h <;> simp

/-! ## Clauses -/

theorem Where.respelled {cs : List Condition} (h : Where ks cs) (hks : Legible ks)
    (hfloat : ∀ d ∈ comparisonsOf cs, d.FloatFree) :
    ∃ ls, Spells (whereWords cs) ls ∧ Where ls cs := by
  cases h with
  | absent => exact ⟨[], .nil, .absent⟩
  | present hchain =>
    obtain ⟨ls, hwords, hchain⟩ := hchain.respelled hks.tail hfloat
    rw [whereWords, if_neg (by simpa using hchain.ne_nil)]
    exact ⟨_, .cons (readsAs_keyword .where) hwords, .present hchain⟩

/-- A key is always printed with its direction, also where it came without one. -/
theorem Key.respelled {item : OrderItem} (h : Key ks item) (hks : Named ks) :
    ∃ ls, Spells item.words ls ∧ Key ls item := by
  have hdirected : ∀ {ks : List TokenKind} {f : String} (direction : Direction), Field ks f →
      Named ks → ∃ ls, Spells (OrderItem.words ⟨f, direction⟩) ls ∧ Key ls ⟨f, direction⟩ := by
    intro ks f direction hf hks
    obtain ⟨ls, hname, hf⟩ := hf.respelled hks
    refine ⟨_, .cons hname (.single (readsAs_keyword direction.keyword)), ?_⟩
    cases direction with
    | ascending => exact .ascending hf
    | descending => exact .descending hf
  cases h with
  | plain hf => exact hdirected .ascending hf hks
  | ascending hf => exact hdirected .ascending hf hks.left
  | descending hf => exact hdirected .descending hf hks.left

theorem Keys.ne_nil {items : List OrderItem} (h : Keys ks items) : items ≠ [] := by
  cases h <;> simp

theorem Keys.respelled {items : List OrderItem} (h : Keys ks items) (hks : Named ks) :
    ∃ ls, Spells (List.intercalate [","] (items.map OrderItem.words)) ls ∧ Keys ls items := by
  induction h with
  | last hkey =>
    obtain ⟨ls, hwords, hkey⟩ := hkey.respelled hks
    exact ⟨ls, by simpa [List.intercalate] using hwords, .last hkey⟩
  | more hkey hkeys ih =>
    obtain ⟨ls, hwords, hkey⟩ := hkey.respelled hks.left
    obtain ⟨ms, hmore, hrest⟩ := ih hks.right.tail
    exact ⟨_, .separated readsAs_comma hwords (by simpa using hkeys.ne_nil) hmore,
      .more hkey hrest⟩

theorem Order.respelled {items : List OrderItem} (h : Order ks items) (hks : Named ks) :
    ∃ ls, Spells (orderWords items) ls ∧ Order ls items := by
  cases h with
  | absent => exact ⟨[], .nil, .absent⟩
  | present hkeys =>
    obtain ⟨ls, hwords, hkeys⟩ := hkeys.respelled hks.tail.tail
    rw [orderWords, if_neg (by simpa using hkeys.ne_nil)]
    exact ⟨_, .cons (readsAs_keyword .order) (.cons (readsAs_keyword .by) hwords),
      .present hkeys⟩

theorem Limit.spells {limit : Option Nat} (h : Limit ks limit) (hks : Legible ks) :
    Spells (limitWords limit) ks := by
  cases h with
  | absent => exact .nil
  | @present n hn =>
    obtain ⟨hleast, hgreatest⟩ := hks.tail.fits n List.mem_cons_self
    have hword : toString n.toNat = toString n := by
      conv_rhs => rw [← Int.toNat_of_nonneg hn]
      rfl
    have hreads := readsAs_int hleast hgreatest
    rw [← hword] at hreads
    exact .cons (readsAs_keyword .limit) (.single hreads)

theorem Latest.spells {latest : Bool} (h : Latest ks latest) : Spells (latestWords latest) ks := by
  cases h with
  | absent => exact .nil
  | present => exact .single (readsAs_keyword .latest)

/-- A query is read back from its words. -/
theorem Whole.respelled {q : Query} (h : Whole ks q) (hks : Legible ks) (hfloat : q.FloatFree) :
    ∃ ls, Spells q.words ls ∧ Whole ls q := by
  cases h with
  | @records _ _ e _ _ _ _ _ _ _ _ hverb hname hwhere horder hlimit hlatest =>
    have hclauses := hks.tail.tail
    obtain ⟨ws, hwords, hwhere⟩ := hwhere.respelled hclauses.left hfloat
    obtain ⟨os, hkeys, horder⟩ := horder.respelled hclauses.right.left.named
    have hrest := (hlimit.spells hclauses.right.right.left).append hlatest.spells
    have hall := Spells.cons (readsAs_keyword .show)
      (.cons (readsAs_name e.isName_name) (hwords.append (hkeys.append hrest)))
    refine ⟨_, ?_, .records .show e.ofName?_name hwhere horder hlimit hlatest⟩
    exact hall
  | @count _ e _ _ hname hwhere =>
    obtain ⟨ws, hwords, hwhere⟩ := hwhere.respelled hks.tail.tail hfloat
    refine ⟨_, .cons (readsAs_keyword .count) (.cons (readsAs_name e.isName_name) ?_),
      .count e.ofName?_name hwhere⟩
    simpa [orderWords, limitWords, latestWords] using hwords

end Grammar

/-- Reading a printed query gives the query back. -/
theorem Query.parse_print {text : String} {q : Query} (h : Query.parse text = .ok q)
    (hfloat : q.FloatFree) : Query.parse q.print = .ok q := by
  unfold Query.parse at h ⊢
  cases htokens : tokenize text with
  | error e => simp [htokens] at h
  | ok stream =>
    rw [htokens] at h
    obtain ⟨hwhole, hnesting⟩ := Parser.query_sound (TokenStream.query_eq_ok.1 h)
    obtain ⟨ls, hwords, hwhole⟩ :=
      hwhole.respelled (Grammar.legible_of_tokenize htokens) hfloat
    obtain ⟨printed, hprinted, hkinds⟩ := hwords.scans Position.start
    have htokenize : tokenize q.print = .ok printed := hprinted
    rw [htokenize]
    exact TokenStream.query_eq_ok.2 (Parser.query_complete hwhole hnesting hkinds)

/-- A text with quotes, a backslash and a line break in it, the least integer, and a name with a
point and a letter outside ASCII. -/
theorem Query.parse_print_escapes : ∃ q,
    Query.parse
      "find DEVICE where (Lower(ß.x,b)='\\'\\\\\n\"' or c in(-9223372036854775808)) limit 07" =
      .ok q ∧
    q.FloatFree ∧
    q.print =
      "SHOW devices WHERE ( lower(ß.x, b) = '\\'\\\\\n\"' OR c IN ( -9223372036854775808 ) ) LIMIT 7" ∧
    Query.parse q.print = .ok q := by
  have hread : (Query.parse
      "find DEVICE where (Lower(ß.x,b)='\\'\\\\\n\"' or c in(-9223372036854775808)) limit 07"
      ).toOption.map (fun q => (decide q.FloatFree, q.print)) = some (true,
      "SHOW devices WHERE ( lower(ß.x, b) = '\\'\\\\\n\"' OR c IN ( -9223372036854775808 ) ) LIMIT 7"
      ) := by
    decide +kernel
  obtain ⟨q, hq, hprint⟩ := toOption_map_eq_some_iff.1 hread
  obtain ⟨hfree, hprint⟩ := Prod.mk.inj hprint
  have hfloat : q.FloatFree := of_decide_eq_true hfree
  exact ⟨q, hq, hfloat, hprint, Query.parse_print hq hfloat⟩

end NetQuery
