import NetQuery.Proofs.Evaluation
import NetQuery.Proofs.Recasing

/-!
# Reading the filter of an SQL statement

How an engine understands the filter of a statement, from its text alone. The text is cut into
words, quoted texts, commas and parentheses. What stands between a `WHERE` and an `ORDER` or `LIMIT`
is the filter. It is cut into disjuncts at each `OR` outside of parentheses, these into conjuncts at
each `AND` that no `BETWEEN` owns, and a conjunct in parentheses is a filter again; any other
conjunct is an atom.
-/

namespace NetQuery.Sql

/-! ## Tokens -/

/-- A token of a statement. -/
inductive Token where
  /-- A run of characters without blanks, quotes, commas and parentheses. -/
  | word (text : String)
  /-- A text in single quotes, without its quotes and escapes. -/
  | quoted (value : String)
  | comma
  | opening
  | closing
deriving DecidableEq, Repr

/-- A character that may stand in a word. -/
def isWordChar (c : Char) : Bool :=
  !Text.isBlank c && c ≠ '(' && c ≠ ')' && c ≠ ',' && c ≠ '\''

/-- The token that starts with `c`, when `rest` follows, and how many characters of `rest` it
takes. -/
def tokenAt (c : Char) (rest : List Char) : Option (Token × Nat) :=
  if c = '(' then some (.opening, 0)
  else if c = ')' then some (.closing, 0)
  else if c = ',' then some (.comma, 0)
  else if c = '\'' then
    (Lexer.textTail '\'' rest).map fun (value, n) => (.quoted (String.ofList value), n)
  else
    let more := rest.takeWhile isWordChar
    some (.word (String.ofList (c :: more)), more.length)

/-- The tokens of a text after the characters that an earlier token has taken; none if the end is
inside a quoted text. -/
def tokens : (taken : Nat) → List Char → Option (List Token)
  | _, [] => some []
  | taken + 1, _ :: cs => tokens taken cs
  | 0, c :: cs =>
    if Text.isBlank c then tokens 0 cs
    else match tokenAt c cs with
      | none => none
      | some (token, n) => (tokens n cs).map (token :: ·)

/-- The token spells the keyword, in any case. -/
def Token.spells (k : Keyword) : Token → Bool
  | .word text => Text.agree k.text text
  | _ => false

/-- The tokens of the filter, if there is one. -/
def filterTokens (ts : List Token) : Option (List Token) :=
  match ts.dropWhile fun t => !t.spells .where with
  | [] => none
  | _ :: rest => some (rest.takeWhile fun t => !(t.spells .order || t.spells .limit))

/-! ## Formulas -/

/-- A filter as an engine understands it. -/
inductive Formula where
  /-- A comparison, as its tokens. -/
  | atom (tokens : List Token)
  | and (f g : Formula)
  | or (f g : Formula)
deriving DecidableEq, Repr

namespace Formula

/-- The comparisons of a formula, from left to right. -/
def atoms : Formula → List (List Token)
  | .atom tokens => [tokens]
  | .and f g => f.atoms ++ g.atoms
  | .or f g => f.atoms ++ g.atoms

/-- The value of a formula whose first comparison has the given number. -/
def eval (truth : Nat → Bool) : (number : Nat) → Formula → Bool
  | number, .atom _ => truth number
  | number, .and f g => f.eval truth number && g.eval truth (number + f.atoms.length)
  | number, .or f g => f.eval truth number || g.eval truth (number + f.atoms.length)

/-- Formulas joined from left to right. -/
def joined (join : Formula → Formula → Formula) : List Formula → Formula
  | [] => .atom []
  | f :: fs => fs.foldl join f

end Formula

/-- A part of a filter: a token, or what stands between two parentheses. -/
inductive Item where
  | token (t : Token)
  /-- The tokens between the parentheses, and the formula that they are as a filter. -/
  | paren (inner : List Token) (inside : Formula)

namespace Item

/-- The tokens of an item. -/
def tokens : Item → List Token
  | .token t => [t]
  | .paren inner _ => .opening :: (inner ++ [.closing])

/-- The item spells the keyword. -/
def spells (k : Keyword) : Item → Bool
  | .token t => t.spells k
  | .paren _ _ => false

end Item

/-- The parts of a disjunct between the occurrences of `AND`, except for the one that belongs to a
`BETWEEN`. -/
def conjuncts : (between : Bool) → List Item → List (List Item)
  | _, [] => [[]]
  | between, item :: items =>
    if item.spells .and && !between then [] :: conjuncts false items
    else
      (conjuncts (item.spells .between || (between && !item.spells .and)) items).modifyHead
        (item :: ·)

/-- A conjunct is a filter in parentheses or a comparison. -/
def operand : List Item → Formula
  | [.paren _ inside] => inside
  | items => .atom (items.flatMap Item.tokens)

/-- The formula of a filter: disjuncts of conjuncts. -/
def formula (items : List Item) : Formula :=
  .joined .or ((items.splitOnP (Item.spells .or)).map fun part =>
    .joined .and ((conjuncts false part).map operand))

/-- The items of a filter, of which `current` has been read in the innermost open parenthesis and
`stack` in the ones around it; none if the parentheses do not match. -/
def nest : (stack : List (List Item)) → (current : List Item) → List Token → Option (List Item)
  | [], current, [] => some current
  | _ :: _, _, [] => none
  | stack, current, .opening :: ts => nest (current :: stack) [] ts
  | [], _, .closing :: _ => none
  | outer :: stack, current, .closing :: ts =>
    nest stack (outer ++ [.paren (current.flatMap Item.tokens) (formula current)]) ts
  | stack, current, t :: ts => nest stack (current ++ [.token t]) ts

/-- The filter of a statement, as an engine understands it. -/
def filter? (statement : String) : Option Formula := do
  let ts ← tokens 0 statement.toList
  let filter ← filterTokens ts
  let items ← nest [] [] filter
  some (formula items)

/-! ## Texts one after the other -/

/-- No word goes on across the place where two texts meet. -/
def Seam (cs rest : List Char) : Prop :=
  ∀ c ∈ cs.getLast?, ∀ d ∈ rest.head?, isWordChar c = false ∨ isWordChar d = false

theorem seam_of_head {rest : List Char} (h : ∀ d ∈ rest.head?, isWordChar d = false)
    (cs : List Char) : Seam cs rest := fun _ _ d hd => Or.inr (h d hd)

theorem seam_cons {d : Char} (hd : isWordChar d = false) (cs rest : List Char) :
    Seam cs (d :: rest) :=
  seam_of_head (by simpa using hd) cs

theorem Seam.tail {c : Char} {cs rest : List Char} (h : Seam (c :: cs) rest) : Seam cs rest := by
  intro d hd
  cases cs with
  | nil => cases hd
  | cons e cs => exact h d (by rwa [List.getLast?_cons_cons])

theorem length_textTail {quote : Char} {cs value : List Char} {n : Nat}
    (h : Lexer.textTail quote cs = some (value, n)) : n ≤ cs.length := by
  fun_induction Lexer.textTail quote cs generalizing value n with
  | case1 => cases h
  | case2 c cs ih =>
    obtain ⟨⟨_, m⟩, htail, heq⟩ := Option.map_eq_some_iff.1 h
    cases heq
    simpa using ih htail
  | case3 cs _ =>
    cases h
    simp
  | case4 c cs _ _ ih =>
    obtain ⟨⟨_, m⟩, htail, heq⟩ := Option.map_eq_some_iff.1 h
    cases heq
    simpa using ih htail

theorem takeWhile_append_of_seam {c : Char} {cs rest : List Char} (hc : isWordChar c)
    (hseam : Seam (c :: cs) rest) :
    (cs ++ rest).takeWhile isWordChar = cs.takeWhile isWordChar := by
  induction cs generalizing c with
  | nil =>
    cases rest with
    | nil => rfl
    | cons d rest =>
      have hd : isWordChar d = false := (hseam c rfl d rfl).resolve_left (by simp [hc])
      simp [hd]
  | cons d cs ih =>
    cases hd : isWordChar d with
    | true => simp [hd, ih hd hseam.tail]
    | false => simp [hd]

theorem isWordChar_of_ne {c : Char} (hblank : Text.isBlank c = false) (hopen : c ≠ '(')
    (hclose : c ≠ ')') (hcomma : c ≠ ',') (hquote : c ≠ '\'') : isWordChar c := by
  simp [isWordChar, hblank, hopen, hclose, hcomma, hquote]

/-- A token is read from its own characters. -/
theorem tokenAt_append {c : Char} {cs rest : List Char} {token : Token} {n : Nat}
    (hblank : Text.isBlank c = false) (h : tokenAt c cs = some (token, n))
    (hseam : Seam (c :: cs) rest) :
    tokenAt c (cs ++ rest) = some (token, n) ∧ n ≤ cs.length := by
  unfold tokenAt at h ⊢
  by_cases hopen : c = '('
  · rw [if_pos hopen] at h ⊢
    cases h
    exact ⟨rfl, Nat.zero_le _⟩
  by_cases hclose : c = ')'
  · rw [if_neg hopen, if_pos hclose] at h ⊢
    cases h
    exact ⟨rfl, Nat.zero_le _⟩
  by_cases hcomma : c = ','
  · rw [if_neg hopen, if_neg hclose, if_pos hcomma] at h ⊢
    cases h
    exact ⟨rfl, Nat.zero_le _⟩
  by_cases hquote : c = '\''
  · rw [if_neg hopen, if_neg hclose, if_neg hcomma, if_pos hquote] at h ⊢
    obtain ⟨⟨value, m⟩, htail, heq⟩ := Option.map_eq_some_iff.1 h
    cases heq
    have hle := length_textTail htail
    have hmore : Lexer.textTail '\'' (cs ++ rest) = some (value, n) :=
      Lexer.textTail_congr (by decide) htail (List.take_append_of_le_length hle).symm
    rw [hmore]
    exact ⟨rfl, hle⟩
  · rw [if_neg hopen, if_neg hclose, if_neg hcomma, if_neg hquote] at h ⊢
    have hc := isWordChar_of_ne hblank hopen hclose hcomma hquote
    simp only at h ⊢
    cases h
    rw [takeWhile_append_of_seam hc hseam]
    exact ⟨rfl, (List.takeWhile_prefix _).length_le⟩

/-- The tokens of two texts one after the other are those of each. -/
theorem tokens_append {cs rest : List Char} {ts : List Token} {taken : Nat}
    (h : tokens taken cs = some ts) (htaken : taken ≤ cs.length) (hseam : Seam cs rest) :
    tokens taken (cs ++ rest) = (tokens 0 rest).map (ts ++ ·) := by
  induction cs generalizing taken ts with
  | nil =>
    obtain rfl : taken = 0 := by simpa using htaken
    cases h
    simp
  | cons c cs ih =>
    cases taken with
    | succ taken => exact ih h (by simpa using htaken) hseam.tail
    | zero =>
      rw [tokens] at h
      rw [List.cons_append, tokens]
      cases hblank : Text.isBlank c with
      | true =>
        rw [hblank, if_pos rfl] at h
        rw [if_pos rfl]
        exact ih h (Nat.zero_le _) hseam.tail
      | false =>
        rw [hblank, if_neg Bool.false_ne_true] at h
        rw [if_neg Bool.false_ne_true]
        split at h
        next => cases h
        next token n htoken =>
          obtain ⟨more, hmore, rfl⟩ := Option.map_eq_some_iff.1 h
          obtain ⟨htoken', hle⟩ := tokenAt_append hblank htoken hseam
          rw [htoken']
          simp only
          rw [ih hmore hle hseam.tail, Option.map_map]
          rfl

/-! ## Parentheses -/

/-- Tokens with matching parentheses become the given items, wherever they stand. -/
structure Nests (ts : List Token) (items : List Item) : Prop where
  nest : ∀ stack current rest, nest stack current (ts ++ rest) = nest stack (current ++ items) rest
  tokens : items.flatMap Item.tokens = ts

namespace Nests

variable {ts us : List Token} {items more : List Item}

theorem nil : Nests [] [] := ⟨by simp, rfl⟩

theorem append (h : Nests ts items) (h' : Nests us more) : Nests (ts ++ us) (items ++ more) where
  nest stack current rest := by
    rw [List.append_assoc, h.nest, h'.nest, List.append_assoc]
  tokens := by rw [List.flatMap_append, h.tokens, h'.tokens]

theorem token {t : Token} (hopen : t ≠ .opening) (hclose : t ≠ .closing) :
    Nests [t] [.token t] where
  nest stack current rest := by
    cases t with
    | opening => exact absurd rfl hopen
    | closing => exact absurd rfl hclose
    | _ => cases stack <;> rfl
  tokens := rfl

theorem word (text : String) : Nests [.word text] [.token (.word text)] := token nofun nofun

theorem paren (h : Nests ts items) :
    Nests (.opening :: (ts ++ [.closing])) [.paren ts (formula items)] where
  nest stack current rest := by
    have hinner := h.nest (current :: stack) [] (.closing :: rest)
    rw [List.nil_append, Sql.nest, h.tokens] at hinner
    rw [List.cons_append, List.append_assoc]
    cases stack <;> exact hinner
  tokens := by simp [Item.tokens]

theorem nest_nil (h : Nests ts items) : Sql.nest [] [] ts = some items := by
  have hall := h.nest [] [] []
  rwa [List.append_nil] at hall

end Nests

/-! ## Operands -/

/-- The keywords that divide a filter or end it. -/
def dividers : List Keyword := [.order, .limit, .and, .or, .between]

/-- A token that neither divides a filter nor ends it. -/
def Token.IsPlain (t : Token) : Prop := ∀ k ∈ dividers, t.spells k = false

instance (t : Token) : Decidable t.IsPlain :=
  inferInstanceAs (Decidable (∀ k ∈ dividers, t.spells k = false))

/-- Items that are one operand of a filter. -/
structure IsOperand (items : List Item) (f : Formula) : Prop where
  noOr : ∀ item ∈ items, item.spells .or = false
  noAnd : ∀ rest, conjuncts false (items ++ rest) =
    (conjuncts false rest).modifyHead (items ++ ·)
  operand : operand items = f

theorem isOperand_paren (inner : List Token) (f : Formula) : IsOperand [.paren inner f] f where
  noOr := by simp [Item.spells]
  noAnd rest := by simp [conjuncts, Item.spells]
  operand := rfl

theorem conjuncts_plain {items : List Item} (h : ∀ item ∈ items, ∀ k ∈ dividers,
    item.spells k = false) (between : Bool) (rest : List Item) :
    conjuncts between (items ++ rest) = (conjuncts between rest).modifyHead (items ++ ·) := by
  induction items with
  | nil => cases hparts : conjuncts between rest <;> simp [hparts]
  | cons item items ih =>
    have hitem := h item List.mem_cons_self
    have hand : item.spells .and = false := hitem .and (by decide)
    have hbetween : item.spells .between = false := hitem .between (by decide)
    rw [List.cons_append, conjuncts]
    simp only [hand, hbetween, Bool.false_and, Bool.false_or, Bool.not_false, Bool.and_true]
    rw [if_neg Bool.false_ne_true, ih fun i hi => h i (List.mem_cons_of_mem _ hi),
      List.modifyHead_modifyHead]
    rfl

theorem Nests.plain {ts : List Token} {items : List Item} (h : Nests ts items)
    (hts : ∀ t ∈ ts, t.IsPlain) : ∀ item ∈ items, ∀ k ∈ dividers, item.spells k = false := by
  intro item hitem k hk
  cases item with
  | paren => rfl
  | token t =>
    have ht : t ∈ ts := by
      rw [← h.tokens]
      exact List.mem_flatMap.2 ⟨.token t, hitem, List.mem_singleton.2 rfl⟩
    exact hts t ht k hk

/-- Items that start with a word are no filter in parentheses. -/
theorem Nests.operand {ts : List Token} {items : List Item} (h : Nests ts items) {word : String}
    (hhead : ts.head? = some (.word word)) : operand items = .atom ts := by
  have htokens := h.tokens
  cases items with
  | nil =>
    rw [← htokens] at hhead
    cases hhead
  | cons item items =>
    cases item with
    | token t =>
      rw [Sql.operand, htokens]
      simp
    | paren inner f =>
      rw [← htokens] at hhead
      cases hhead

theorem isOperand_of_plain {ts : List Token} {items : List Item} (h : Nests ts items)
    (hts : ∀ t ∈ ts, t.IsPlain) {word : String} (hhead : ts.head? = some (.word word)) :
    IsOperand items (.atom ts) where
  noOr item hitem := h.plain hts item hitem .or (by decide)
  noAnd := conjuncts_plain (h.plain hts) false
  operand := h.operand hhead

theorem Nests.between {ts us vs : List Token} {items more last : List Item} (h : Nests ts items)
    (h' : Nests us more) (h'' : Nests vs last) :
    Nests (ts ++ .word "BETWEEN" :: (us ++ .word "AND" :: vs))
      (items ++ .token (.word "BETWEEN") :: (more ++ .token (.word "AND") :: last)) :=
  h.append ((word "BETWEEN").append (h'.append ((word "AND").append h'')))

/-- The `AND` of a `BETWEEN` divides nothing. -/
theorem isOperand_between {ts us vs : List Token} {items more last : List Item}
    (h : Nests ts items) (h' : Nests us more) (h'' : Nests vs last)
    (hts : ∀ t ∈ ts, t.IsPlain) (hus : ∀ t ∈ us, t.IsPlain) (hvs : ∀ t ∈ vs, t.IsPlain)
    {word : String} (hhead : ts.head? = some (.word word)) :
    IsOperand (items ++ .token (.word "BETWEEN") :: (more ++ .token (.word "AND") :: last))
      (.atom (ts ++ .word "BETWEEN" :: (us ++ .word "AND" :: vs))) where
  noOr := by
    have hor : Item.spells .or (.token (.word "BETWEEN")) = false ∧
        Item.spells .or (.token (.word "AND")) = false := by decide +kernel
    simp only [List.forall_mem_append, List.forall_mem_cons]
    exact ⟨fun item hi => h.plain hts item hi .or (by decide), hor.1,
      fun item hi => h'.plain hus item hi .or (by decide), hor.2,
      fun item hi => h''.plain hvs item hi .or (by decide)⟩
  noAnd rest := by
    -- `BETWEEN` waits for one `AND`, and after that the next one divides again.
    have hopen : ∀ rest, conjuncts false (.token (.word "BETWEEN") :: rest) =
        (conjuncts true rest).modifyHead (.token (.word "BETWEEN") :: ·) := fun _ => rfl
    have hclose : ∀ rest, conjuncts true (.token (.word "AND") :: rest) =
        (conjuncts false rest).modifyHead (.token (.word "AND") :: ·) := fun _ => rfl
    simp only [List.append_assoc, List.cons_append, conjuncts_plain (h.plain hts),
      conjuncts_plain (h'.plain hus), conjuncts_plain (h''.plain hvs), hopen, hclose,
      List.modifyHead_modifyHead]
    rfl
  operand := by
    have hfirst : (ts ++ .word "BETWEEN" :: (us ++ .word "AND" :: vs)).head? =
        some (.word word) := by
      rw [List.head?_append, hhead]
      rfl
    exact (h.between h' h'').operand hfirst

/-! ## Chains of operands -/

/-- The items of the later operands of a chain, with the words that join them. -/
inductive Later : List Item → List (Link × Formula) → Prop where
  | nil : Later [] []
  | and {items more : List Item} {f : Formula} {rest : List (Link × Formula)}
      (h : IsOperand items f) (hmore : Later more rest) :
      Later (.token (.word "AND") :: (items ++ more)) ((.and, f) :: rest)
  | or {items more : List Item} {f : Formula} {rest : List (Link × Formula)}
      (h : IsOperand items f) (hmore : Later more rest) :
      Later (.token (.word "OR") :: (items ++ more)) ((.or, f) :: rest)

/-- The rest of the conjuncts of the first disjunct, and the conjuncts of the other disjuncts. -/
def parts : List (Link × Formula) → List Formula × List (List Formula)
  | [] => ([], [])
  | (.or, f) :: rest => ([], (f :: (parts rest).1) :: (parts rest).2)
  | (_, f) :: rest => (f :: (parts rest).1, (parts rest).2)

theorem splitOnP_append {items : List Item} (h : ∀ item ∈ items, item.spells .or = false)
    (rest : List Item) : (items ++ rest).splitOnP (Item.spells .or) =
      (rest.splitOnP (Item.spells .or)).modifyHead (items ++ ·) := by
  induction items with
  | nil => cases hparts : rest.splitOnP (Item.spells .or) <;> simp [hparts]
  | cons item items ih =>
    rw [List.cons_append, List.splitOnP_cons_eq_if_modifyHead,
      if_neg (by simp [h item List.mem_cons_self]), ih fun i hi => h i (List.mem_cons_of_mem _ hi),
      List.modifyHead_modifyHead]
    rfl

theorem conjuncts_operand {items : List Item} {f : Formula} (h : IsOperand items f) :
    (conjuncts false items).map operand = [f] := by
  have hone := h.noAnd []
  rw [List.append_nil] at hone
  simp [hone, conjuncts, h.operand]

/-- A chain is cut into its operands. -/
theorem map_splitOnP {items more : List Item} {f : Formula} {rest : List (Link × Formula)}
    (h : IsOperand items f) (hmore : Later more rest) :
    ((items ++ more).splitOnP (Item.spells .or)).map (fun part =>
      (conjuncts false part).map operand) = (f :: (parts rest).1) :: (parts rest).2 := by
  induction hmore generalizing items f with
  | nil =>
    rw [List.append_nil, List.splitOnP_eq_singleton h.noOr, List.map_singleton,
      conjuncts_operand h]
    rfl
  | @and next more g rest hnext hmore ih =>
    have hand : Item.spells .or (.token (.word "AND")) = false := by decide +kernel
    have hitems : ∀ item ∈ items ++ [.token (.word "AND")], item.spells .or = false :=
      List.forall_mem_append.2 ⟨h.noOr, List.forall_mem_singleton.2 hand⟩
    have hcut : ∀ part, conjuncts false (items ++ [.token (.word "AND")] ++ part) =
        items :: conjuncts false part := by
      intro part
      have hword : conjuncts false (.token (.word "AND") :: part) = [] :: conjuncts false part := rfl
      rw [List.append_assoc, List.singleton_append, h.noAnd, hword, List.modifyHead_cons,
        List.append_nil]
    -- The first operand and its `AND` are in the same disjunct as the next operand.
    have hsplit : items ++ .token (.word "AND") :: (next ++ more) =
        (items ++ [.token (.word "AND")]) ++ (next ++ more) := by simp
    have hnext' := ih hnext
    rw [hsplit, splitOnP_append hitems]
    cases hparts : (next ++ more).splitOnP (Item.spells .or) with
    | nil => exact absurd hparts (List.splitOnP_ne_nil _ _)
    | cons part others =>
      rw [hparts, List.map_cons] at hnext'
      obtain ⟨hfirst, hothers⟩ := List.cons.inj hnext'
      rw [List.modifyHead_cons, List.map_cons, hcut, List.map_cons, h.operand, hfirst, hothers]
      rfl
  | @or next more g rest hnext hmore ih =>
    have hor : Item.spells .or (.token (.word "OR")) := by decide +kernel
    rw [List.splitOnP_append_cons_of_forall_mem h.noOr _ hor, List.map_cons, conjuncts_operand h,
      ih hnext]
    rfl

/-- Operands put together from the left: those of the disjuncts that are complete, and the one that
a conjunction may still go on with. -/
def folded : (complete : Option Formula) → (current : Formula) → List (Link × Formula) → Formula
  | complete, current, [] => complete.elim current (.or · current)
  | complete, current, (.or, f) :: rest =>
    folded (some (complete.elim current (.or · current))) f rest
  | complete, current, (_, f) :: rest => folded complete (.and current f) rest

theorem foldl_parts (complete : Formula) (f : Formula) (rest : List (Link × Formula)) :
    (((f :: (parts rest).1) :: (parts rest).2).map (Formula.joined .and)).foldl .or complete =
      folded (some complete) f rest := by
  induction rest generalizing complete f with
  | nil => rfl
  | cons next rest ih =>
    obtain ⟨link, g⟩ := next
    cases link with
    | or => exact ih (.or complete f) g
    | and => exact ih complete (.and f g)
    | first => exact ih complete (.and f g)

theorem joined_parts (f : Formula) (rest : List (Link × Formula)) :
    Formula.joined .or (((f :: (parts rest).1) :: (parts rest).2).map (Formula.joined .and)) =
      folded none f rest := by
  induction rest generalizing f with
  | nil => rfl
  | cons next rest ih =>
    obtain ⟨link, g⟩ := next
    cases link with
    | or => exact foldl_parts f g rest
    | and => exact ih (.and f g)
    | first => exact ih (.and f g)

theorem formula_chain {items more : List Item} {f : Formula} {rest : List (Link × Formula)}
    (h : IsOperand items f) (hmore : Later more rest) :
    formula (items ++ more) = folded none f rest := by
  rw [formula, ← joined_parts, ← map_splitOnP h hmore, List.map_map]
  rfl

/-! ## What a formula means -/

/-- A formula means what a condition does by precedence, and its atoms are those that the
comparisons of the condition may become. -/
structure Means (Atom : Comparison → List Token → Prop) (c : Condition) (f : Formula) : Prop where
  eval : ∀ truth number, f.eval truth number = Rule.precedence.condition truth number c
  atoms : List.Forall₂ Atom c.comparisons f.atoms

/-- A later operand of a chain and the condition that it is written for. -/
def LaterMeans (Atom : Comparison → List Token → Prop) (c : Condition) (p : Link × Formula) : Prop :=
  c.link = p.1 ∧ c.link ≠ .first ∧ Means Atom c p.2

variable {Atom : Comparison → List Token → Prop}

theorem atoms_folded (complete : Option Formula) (current : Formula)
    (rest : List (Link × Formula)) : (folded complete current rest).atoms =
      complete.elim [] Formula.atoms ++ current.atoms ++ rest.flatMap fun p => p.2.atoms := by
  induction rest generalizing complete current with
  | nil => cases complete <;> simp [folded, Formula.atoms]
  | cons next rest ih =>
    obtain ⟨link, f⟩ := next
    cases link <;> cases complete <;> simp [folded, ih, Formula.atoms]

/-- Putting operands together from the left is what the rule of precedence does. -/
theorem eval_folded {cs : List Condition} {rest : List (Link × Formula)}
    (h : List.Forall₂ (LaterMeans Atom) cs rest) {truth : Nat → Bool} {number next : Nat}
    {complete : Option Formula} {current : Formula} {s : Rule.precedence.State}
    (hcomplete : s.1 = complete.elim false (·.eval truth number))
    (hcurrent : s.2 = current.eval truth (number + complete.elim 0 (·.atoms.length)))
    (hnext : next = number + complete.elim 0 (·.atoms.length) + current.atoms.length) :
    (folded complete current rest).eval truth number =
      Rule.precedence.value (Rule.precedence.run truth next s cs) := by
  induction h generalizing next complete current s with
  | nil =>
    rw [Rule.run]
    change _ = (s.1 || s.2)
    cases complete <;> simp [hcomplete, hcurrent, folded, Formula.eval]
  | @cons c p cs rest hp _ ih =>
    obtain ⟨link, f⟩ := p
    obtain ⟨hlink, hfirst, hmeans⟩ := hp
    have hlength : c.comparisons.length = f.atoms.length := hmeans.atoms.length_eq
    rw [Rule.run, hlength, ← hmeans.eval, hlink]
    cases link with
    | first => exact absurd hlink hfirst
    | or =>
      rw [folded]
      refine ih ?_ ?_ ?_
      · change (s.1 || s.2) = _
        cases complete <;> simp [hcomplete, hcurrent, Formula.eval]
      · change f.eval truth next = _
        cases complete <;> simp [hnext, Formula.atoms, Nat.add_assoc]
      · cases complete <;> simp [hnext, Formula.atoms, Nat.add_assoc]
    | and =>
      rw [folded]
      · refine ih hcomplete ?_ ?_
        · change (s.2 && f.eval truth next) = _
          simp [hcurrent, hnext, Formula.eval]
        · simp [hnext, Formula.atoms, Nat.add_assoc]
      · exact nofun

/-- A chain of operands means what its conditions do by precedence. -/
theorem formula_means {items more : List Item} {f : Formula} {rest : List (Link × Formula)}
    {c : Condition} {cs : List Condition} (h : IsOperand items f) (hmore : Later more rest)
    (hlink : c.link = .first) (hc : Means Atom c f) (hcs : List.Forall₂ (LaterMeans Atom) cs rest) :
    (∀ truth number,
      (formula (items ++ more)).eval truth number = Rule.precedence.eval truth number (c :: cs)) ∧
      List.Forall₂ Atom (comparisonsOf (c :: cs)) (formula (items ++ more)).atoms := by
  rw [formula_chain h hmore]
  constructor
  · intro truth number
    rw [Rule.eval, Rule.run, hlink, ← hc.eval, hc.atoms.length_eq]
    exact eval_folded hcs rfl rfl rfl
  · rw [atoms_folded, comparisonsOf]
    refine List.rel_append hc.atoms ?_
    clear hmore
    induction hcs with
    | nil => exact .nil
    | cons hp _ ih => exact List.rel_append hp.2.2.atoms ih

end NetQuery.Sql
