import NetQuery.Proofs.Spacing
import NetQuery.Proofs.TimeTexts

/-!
# Integer literals

An integer is written with any number of digits, and zeros in front do not count. It is read as the
number that the digits stand for, or it is refused because 64 bits are too few for it; it is never
cut or wrapped, and never becomes a number with a fraction. What is read comes from what is written,
too: wherever an integer is among the tokens of a text, a literal of that value stands at its place.
So the limit of a query is the number that is written after the keyword.
-/

namespace NetQuery

/-- An integer as it is written: a minus sign, or none, and then digits. -/
structure IntLiteral where
  /-- There is a minus sign. -/
  negative : Bool
  /-- The digits. -/
  digits : List Char
  /-- There is a digit. -/
  ne_nil : digits ≠ []
  /-- They are digits. -/
  isDigit : ∀ c ∈ digits, Number.isDigit c

namespace IntLiteral

/-- The characters of the literal. -/
def chars (l : IntLiteral) : List Char := if l.negative then '-' :: l.digits else l.digits

/-- The literal as a text. -/
def text (l : IntLiteral) : String := String.ofList l.chars

/-- The number that the literal stands for: the digits, each times its power of ten, and less than
zero after a minus sign. -/
def value (l : IntLiteral) : Int :=
  let magnitude : Nat := Nat.ofDigits 10 (l.digits.map Number.digitValue).reverse
  if l.negative then -magnitude else magnitude

/-- The number fits 64 bits with a sign. -/
def Fits (l : IntLiteral) : Prop := -2 ^ 63 ≤ l.value ∧ l.value ≤ 2 ^ 63 - 1

instance (l : IntLiteral) : Decidable l.Fits := inferInstanceAs (Decidable (_ ∧ _))

/-- The literal is written at a place of the text, and no more of a number follows it. -/
def WrittenAt (l : IntLiteral) (text : String) (p : Position) : Prop :=
  ∃ before after, text.toList = before ++ (l.chars ++ after) ∧ p = .ofBefore before ∧
    ∀ c ∈ after.head?, Number.isDigit c = false ∧ c ≠ '.'

end IntLiteral

/-! ## Reading a literal -/

/-- Digits are read one by one, and each is worth ten times the next. -/
theorem Number.value_eq_ofDigits (digits : List Char) :
    value digits = Nat.ofDigits 10 (digits.map digitValue).reverse := by
  induction digits using List.reverseRecOn with
  | nil => rfl
  | append_singleton digits d ih =>
    rw [value_snoc, List.map_append, List.map_singleton, List.reverse_append,
      List.reverse_singleton, List.singleton_append, Nat.ofDigits_cons, ih]
    simp [Nat.add_comm]

namespace Lexer

open IntLiteral

variable {rest : List Char}

theorem fits_iff (n : Int) : leastInt ≤ n ∧ n ≤ greatestInt ↔ -2 ^ 63 ≤ n ∧ n ≤ 2 ^ 63 - 1 := by
  simp [leastInt, greatestInt]

theorem numberKind_literal (l : IntLiteral) : numberKind l.negative l.digits =
    if l.Fits then .ok (.int l.value) else .error (.integerOutOfRange l.text) := by
  have hvalue : l.value = if l.negative then -(Number.value l.digits : Int)
      else Number.value l.digits := by
    rw [Number.value_eq_ofDigits]
    rfl
  rw [numberKind_digits l.isDigit hvalue]
  exact if_congr (fits_iff l.value) rfl rfl

/-- A literal is one token, unless more of a number follows. -/
theorem lexeme_literal (l : IntLiteral)
    (hrest : ∀ c ∈ rest.head?, Number.isDigit c = false ∧ c ≠ '.') :
    ∃ c more, l.chars = c :: more ∧ Text.isBlank c = false ∧ lexeme c (more ++ rest) =
      if l.Fits then .ok ⟨.int l.value, more.length⟩ else .error (.integerOutOfRange l.text) := by
  have hkind := numberKind_literal l
  cases hnegative : l.negative with
  | true =>
    refine ⟨'-', l.digits, by rw [chars, if_pos hnegative], by decide, ?_⟩
    rw [hnegative] at hkind
    rw [lexeme_minus l.ne_nil l.isDigit hrest, hkind]
    split <;> rfl
  | false =>
    obtain ⟨c, more, hdigits⟩ := List.exists_cons_of_ne_nil l.ne_nil
    obtain ⟨hc, hmore⟩ := List.forall_mem_cons.1 (hdigits ▸ l.isDigit)
    refine ⟨c, more, by rw [chars, hnegative, hdigits]; rfl, Text.isBlank_of_isDigit hc, ?_⟩
    rw [hnegative, hdigits] at hkind
    rw [lexeme_digits hc hmore hrest, hkind]
    split <;> rfl

/-- A literal is read as its number, and then what follows is read, or it is refused at its first
character. -/
theorem scan_literal (l : IntLiteral) (before : List Char)
    (hrest : ∀ c ∈ rest.head?, Number.isDigit c = false ∧ c ≠ '.') :
    scan 0 (.ofBefore before) (l.chars ++ rest) =
      if l.Fits then (scan 0 (.ofBefore (before ++ l.chars)) rest).map fun stream =>
        ⟨⟨.int l.value, .ofBefore before⟩ :: stream.tokens, stream.finish⟩
      else .error ⟨.ofBefore before, .integerOutOfRange l.text⟩ := by
  obtain ⟨c, more, hchars, hblank, hlexeme⟩ := lexeme_literal l hrest
  rw [hchars, List.cons_append, scan, if_neg (by simp [hblank]), hlexeme]
  by_cases hfits : l.Fits
  · rw [if_pos hfits, if_pos hfits]
    simp only
    rw [scan_taken, List.take_left, List.drop_left, Position.after_ofBefore, advance_ofBefore,
      List.append_assoc, List.singleton_append]
    cases scan 0 (.ofBefore (before ++ c :: more)) rest <;> rfl
  · rw [if_neg hfits, if_neg hfits]

/-! ## Where an integer comes from -/

section Inversion

variable {negative : Bool} {run cs : List Char} {c : Char} {n : Int}

/-- There is no point in an integer. -/
theorem point_not_mem_of_int (h : numberKind negative run = .ok (.int n)) : '.' ∉ run := by
  intro hmem
  obtain ⟨before, after, rfl, hbefore⟩ := List.eq_append_cons_of_mem hmem
  obtain ⟨part, parts, hparts⟩ := List.exists_cons_of_ne_nil (Text.splitOn_ne_nil '.' after)
  have hsplit := Text.splitOn_append hbefore after
  rw [hparts] at hsplit
  unfold numberKind at h
  cases negative <;> simp only [hsplit, Bool.false_eq_true, if_true, if_false] at h <;> split at h
  all_goals first | cases h | (rename_i heq; cases heq)

theorem numberRun_cons (hc : Number.isDigit c) (cs : List Char) :
    numberRun (c :: cs) = c :: numberRun cs := by
  cases cs with
  | nil => simp [numberRun, hc]
  | cons d cs => rw [numberRun, if_pos (by simp [hc])]

theorem isDigit_drop_numberRun (cs : List Char) :
    ∀ d ∈ (cs.drop (numberRun cs).length).head?, Number.isDigit d = false := by
  fun_induction numberRun cs with
  | case1 => simp
  | case2 => simp
  | case3 c hc => simpa using hc
  | case4 c d cs hc ih => simpa using ih
  | case5 c d cs hc => simp_all

/-- Digits and points that are an integer are the digits of a literal of this value. -/
theorem exists_literal_of_numberKind (hne : numberRun cs ≠ [])
    (h : numberKind negative (numberRun cs) = .ok (.int n)) :
    ∃ l : IntLiteral, l.negative = negative ∧ l.digits = numberRun cs ∧ l.Fits ∧ l.value = n := by
  have hdigits : ∀ d ∈ numberRun cs, Number.isDigit d := by
    intro d hd
    refine (isDigit_or_of_mem_numberRun hd).resolve_right ?_
    rintro rfl
    exact point_not_mem_of_int h hd
  have hkind := numberKind_literal ⟨negative, numberRun cs, hne, hdigits⟩
  rw [h] at hkind
  refine ⟨⟨negative, numberRun cs, hne, hdigits⟩, rfl, rfl, ?_⟩
  split at hkind
  next hfits =>
    cases hkind
    exact ⟨hfits, rfl⟩
  next => cases hkind

/-- A token that is an integer is a literal of this value, and no digit follows it. -/
theorem exists_literal_of_lexeme {token : Lexeme} (h : lexeme c rest = .ok token)
    (hn : token.kind = .int n) : ∃ l : IntLiteral, l.chars = c :: rest.take token.more ∧ l.Fits ∧
      l.value = n ∧ ∀ d ∈ (rest.drop token.more).head?, Number.isDigit d = false := by
  revert h
  fun_cases lexeme c rest with
  | case15 _ _ _ _ _ _ _ _ hminus run =>
    intro h
    simp only [Bool.and_eq_true, decide_eq_true_eq, Option.any_eq_true] at hminus
    obtain ⟨rfl, d, hd, hdigit⟩ := hminus
    obtain ⟨ds, rfl⟩ := List.head?_eq_some_iff.1 hd
    have hne : numberRun (d :: ds) ≠ [] := by simp [numberRun_cons hdigit]
    obtain ⟨l, hnegative, hdigits, hfits, hvalue⟩ :=
      exists_literal_of_numberKind hne (hn ▸ numberKind_of_map h)
    rw [more_of_map h]
    refine ⟨l, ?_, hfits, hvalue, isDigit_drop_numberRun _⟩
    rw [chars, if_pos hnegative, hdigits, take_numberRun]
  | case16 _ _ _ _ _ _ _ _ _ hdigit run =>
    intro h
    have hrun := numberRun_cons hdigit rest
    have hne : numberRun (c :: rest) ≠ [] := by simp [hrun]
    obtain ⟨l, hnegative, hdigits, hfits, hvalue⟩ :=
      exists_literal_of_numberKind hne (hn ▸ numberKind_of_map h)
    have hmore : token.more = (numberRun rest).length := by
      simp [more_of_map h, run, hrun]
    rw [hmore]
    refine ⟨l, ?_, hfits, hvalue, isDigit_drop_numberRun _⟩
    rw [chars, hnegative, if_neg (by decide), hdigits, hrun, take_numberRun]
  | case17 _ _ _ _ _ _ _ _ _ _ _ more word kind =>
    intro h
    obtain rfl := Except.ok.inj h
    cases hkeyword : Keyword.ofWord? word <;> simp [kind, hkeyword] at hn
  | _ =>
    intro h
    cases h <;> cases hn

/-- The token was read from its place, in a stretch `cs` of a text that comes after `before`, and
then all that follows was read. -/
def ReadAt (before cs : List Char) (t : Token) : Prop :=
  ∃ between c rest token tail, cs = between ++ c :: rest ∧
    t = ⟨token.kind, .ofBefore (before ++ between)⟩ ∧ lexeme c rest = .ok token ∧
    scan token.more (.ofBefore (before ++ between ++ [c])) rest = .ok tail

variable {before : List Char} {t : Token}

theorem ReadAt.skip (h : ReadAt (before ++ [c]) cs t) : ReadAt before (c :: cs) t := by
  obtain ⟨between, d, rest, token, tail, rfl, rfl, hlexeme, htail⟩ := h
  have hbetween : before ++ [c] ++ between = before ++ c :: between := by simp
  rw [hbetween] at htail ⊢
  exact ⟨c :: between, d, rest, token, tail, rfl, rfl, hlexeme, htail⟩

theorem scan_readAt {taken : Nat} {stream : TokenStream}
    (h : scan taken (.ofBefore before) cs = .ok stream) :
    ∀ t ∈ stream.tokens, ReadAt before cs t := by
  induction cs generalizing before taken stream with
  | nil =>
    cases h
    simp
  | cons c cs ih =>
    cases taken with
    | succ taken =>
      rw [scan, Position.after_ofBefore] at h
      exact fun t ht => (ih h t ht).skip
    | zero =>
      cases hblank : Text.isBlank c with
      | true =>
        rw [scan, if_pos hblank, Position.after_ofBefore] at h
        exact fun t ht => (ih h t ht).skip
      | false =>
        obtain ⟨token, tail, hlexeme, htail, rfl⟩ := (scan_token_iff hblank).1 h
        rw [Position.after_ofBefore] at htail
        refine List.forall_mem_cons.2 ⟨?_, fun t ht => (ih htail t ht).skip⟩
        refine ⟨[], c, cs, token, tail, rfl, ?_, hlexeme, ?_⟩
        · rw [List.append_nil]
        · rwa [List.append_nil]

/-- No token starts with a point. -/
theorem ne_point_of_scan {p : Position} {stream : TokenStream} (h : scan 0 p cs = .ok stream) :
    ∀ d ∈ cs.head?, d ≠ '.' := by
  rintro d hd rfl
  obtain ⟨ds, rfl⟩ := List.head?_eq_some_iff.1 hd
  obtain ⟨token, -, hlexeme, -⟩ := (scan_token_iff (by decide)).1 h
  rw [lexeme_of_not_sign (by decide), if_neg (by decide), if_neg (by decide)] at hlexeme
  cases hlexeme

end Inversion

end Lexer

/-- Where an integer is among the tokens of a text, a literal of its value is written. -/
theorem tokenize_int {text : String} {stream : TokenStream} {n : Int} {p : Position}
    (h : tokenize text = .ok stream) (ht : ⟨.int n, p⟩ ∈ stream.tokens) :
    ∃ l : IntLiteral, l.WrittenAt text p ∧ l.Fits ∧ l.value = n := by
  rw [tokenize, Position.start_eq] at h
  obtain ⟨before, c, rest, token, tail, htext, htoken, hlexeme, htail⟩ := Lexer.scan_readAt h _ ht
  obtain ⟨hkind, rfl⟩ := Token.mk.injEq .. ▸ htoken
  obtain ⟨l, hchars, hfits, hvalue, hdigit⟩ :=
    Lexer.exists_literal_of_lexeme hlexeme hkind.symm
  rw [Lexer.scan_taken] at htail
  refine ⟨l, ⟨before, rest.drop token.more, ?_, rfl, fun d hd => ⟨hdigit d hd, ?_⟩⟩, hfits, hvalue⟩
  · rw [htext, hchars, List.cons_append, List.take_append_drop]
  · exact Lexer.ne_point_of_scan htail d hd

/-- The limit of a query is the integer after the keyword. -/
theorem limit_of_query {ts : List Token} {q : Query} {n : Nat} (h : Parser.query ts = .ok q)
    (hn : q.limit = some n) :
    ∃ before after p p', ts = before ++ ⟨.keyword .limit, p⟩ :: ⟨.int n, p'⟩ :: after := by
  obtain ⟨hwhole, -⟩ := Parser.query_sound h
  generalize hkinds : Parser.kinds ts = ks at hwhole
  cases hwhole with
  | count => cases hn
  | @records verb name e ws os ls ks _ _ _ _ hverb hname hwhere horder hlimit hlatest =>
    cases hlimit with
    | absent => cases hn
    | @present v hv =>
      obtain rfl : v.toNat = n := Option.some.inj hn
      have hsplit : Parser.kinds ts = (.keyword verb :: .name name :: (ws ++ os)) ++
          (.keyword .limit :: .int v :: ks) := by simp [hkinds]
      obtain ⟨before, tail, rfl, -, htail⟩ := List.map_eq_append_iff.1 hsplit
      obtain ⟨⟨_, p⟩, rest, rfl, rfl, hrest⟩ := List.map_eq_cons_iff.1 htail
      obtain ⟨⟨_, p'⟩, after, rfl, rfl, -⟩ := List.map_eq_cons_iff.1 hrest
      rw [Int.toNat_of_nonneg hv]
      exact ⟨before, after, p, p', rfl⟩

/-! ## Whole texts -/

/-- The stream with an integer in front. -/
def TokenStream.withInt (n : Int) (p : Position) (stream : TokenStream) : TokenStream :=
  ⟨⟨.int n, p⟩ :: stream.tokens, stream.finish⟩

section Text

variable {a w w' b : String} {stream : TokenStream}

/-- Before a blank, a literal is read as its number and the rest of the text as it would be at the
start, or the literal is refused where it starts. -/
theorem scan_literal_before (l : IntLiteral) (before : List Char)
    (hb : ∀ c ∈ b.toList.head?, Text.isBlank c) :
    Lexer.scan 0 (.ofBefore before) (l.chars ++ b.toList) =
      if l.Fits then
        ((tokenize b).map fun rest =>
          (rest.movedBy (before ++ l.chars)).withInt l.value (.ofBefore before)).mapError
            (·.movedBy (before ++ l.chars))
      else .error ⟨.ofBefore before, .integerOutOfRange l.text⟩ := by
  have hstop : ∀ c ∈ b.toList.head?, Number.isDigit c = false ∧ c ≠ '.' := by
    refine fun c hc => ⟨Lexer.isDigit_eq_false_of_isBlank (hb c hc), ?_⟩
    rintro rfl
    exact absurd (hb _ hc) (by decide)
  rw [Lexer.scan_literal l before hstop, scan_ofBefore]
  cases tokenize b <;> rfl

theorem tokenize_blanks (hw : ∀ c ∈ w.toList, Text.isBlank c) :
    tokenize w = .ok ⟨[], .ofBefore w.toList⟩ := by
  have hscan := Lexer.scan_blanks hw [] []
  rwa [List.append_nil, List.nil_append] at hscan

theorem tokenize_literal_alone (l : IntLiteral) (hw : ∀ c ∈ w.toList, Text.isBlank c)
    (hw' : ∀ c ∈ w'.toList, Text.isBlank c) :
    tokenize (w ++ l.text ++ w') =
      if l.Fits then
        .ok ⟨[⟨.int l.value, .ofBefore w.toList⟩], .ofBefore (w ++ l.text ++ w').toList⟩
      else .error ⟨.ofBefore w.toList, .integerOutOfRange l.text⟩ := by
  have hchars : (w ++ l.text ++ w').toList = w.toList ++ (l.chars ++ w'.toList) := by
    simp [IntLiteral.text]
  have hhead : ∀ c ∈ w'.toList.head?, Text.isBlank c := fun c hc =>
    hw' c (List.mem_of_mem_head? hc)
  rw [tokenize, Position.start_eq, hchars, Lexer.scan_blanks hw, List.nil_append,
    scan_literal_before l _ hhead, tokenize_blanks hw']
  simp only [Except.map, Except.mapError, TokenStream.withInt, TokenStream.movedBy,
    Position.movedBy_ofBefore, List.map_nil, List.append_assoc]

theorem tokenize_literal_after (ha : tokenize a = .ok stream) (hw : Text.IsGap w) (l : IntLiteral)
    (hb : ∀ c ∈ b.toList.head?, Text.isBlank c) :
    tokenize (a ++ w ++ l.text ++ b) =
      if l.Fits then
        ((tokenize b).map fun rest => stream.followedBy
          ((rest.movedBy (a ++ w ++ l.text).toList).withInt l.value
            (.ofBefore (a ++ w).toList))).mapError (·.movedBy (a ++ w ++ l.text).toList)
      else .error ⟨.ofBefore (a ++ w).toList, .integerOutOfRange l.text⟩ := by
  obtain ⟨hne, hblank⟩ := hw
  have hchars : (a ++ w ++ l.text ++ b).toList =
      a.toList ++ (w.toList ++ (l.chars ++ b.toList)) := by simp [IntLiteral.text]
  have hbefore : (a ++ w ++ l.text).toList = (a ++ w).toList ++ l.chars := by
    simp [IntLiteral.text]
  have hfinish : stream.finish = .ofBefore a.toList := (tokenize_placed ha).finish
  have happend := Lexer.scan_append (Lexer.isBlank_head?_append hblank hne (l.chars ++ b.toList))
    (Nat.zero_le _) ha
  rw [hfinish, Lexer.scan_blanks hblank, scan_literal_before l _ hb, ← String.toList_append,
    ← hbefore] at happend
  rw [tokenize, hchars, happend]
  by_cases hfits : l.Fits
  · rw [if_pos hfits, if_pos hfits]
    cases tokenize b <;> rfl
  · rw [if_neg hfits, if_neg hfits]
    rfl

end Text

/-- Integers are read exactly or refused. A literal that stands alone between blanks is the one
token of its text, and within a text it is one token of it, with the number that it stands for; but
if that is not one of 64 bits with a sign, then the literal is refused where it starts. An integer
among the tokens of a text is one that is written there. And the limit of a query is the number that
is written after the keyword. -/
theorem tokenize_literal :
    (∀ (l : IntLiteral) (w w' : String), (∀ c ∈ w.toList, Text.isBlank c) →
      (∀ c ∈ w'.toList, Text.isBlank c) → tokenize (w ++ l.text ++ w') =
        if l.Fits then
          .ok ⟨[⟨.int l.value, .ofBefore w.toList⟩], .ofBefore (w ++ l.text ++ w').toList⟩
        else .error ⟨.ofBefore w.toList, .integerOutOfRange l.text⟩) ∧
    (∀ (l : IntLiteral) (a w b : String) (stream : TokenStream), tokenize a = .ok stream →
      Text.IsGap w → (∀ c ∈ b.toList.head?, Text.isBlank c) → tokenize (a ++ w ++ l.text ++ b) =
        if l.Fits then
          ((tokenize b).map fun rest => stream.followedBy
            ((rest.movedBy (a ++ w ++ l.text).toList).withInt l.value
              (.ofBefore (a ++ w).toList))).mapError (·.movedBy (a ++ w ++ l.text).toList)
        else .error ⟨.ofBefore (a ++ w).toList, .integerOutOfRange l.text⟩) ∧
    (∀ (text : String) (stream : TokenStream), tokenize text = .ok stream →
      ∀ n p, ⟨.int n, p⟩ ∈ stream.tokens →
        ∃ l : IntLiteral, l.WrittenAt text p ∧ l.Fits ∧ l.value = n) ∧
    ∀ (text : String) (q : Query) (n : Nat), Query.parse text = .ok q → q.limit = some n →
      ∃ stream before after p p', tokenize text = .ok stream ∧
        stream.tokens = before ++ ⟨.keyword .limit, p⟩ :: ⟨.int n, p'⟩ :: after ∧
        ∃ l : IntLiteral, l.WrittenAt text p' ∧ l.Fits ∧ l.value = n := by
  refine ⟨fun l w w' hw hw' => tokenize_literal_alone l hw hw',
    fun l a w b stream ha hw hb => tokenize_literal_after ha hw l hb,
    fun text stream h n p hp => tokenize_int h hp, ?_⟩
  intro text q n h hn
  unfold Query.parse at h
  split at h
  next => cases h
  next stream hstream =>
    obtain ⟨before, after, p, p', htokens⟩ := limit_of_query (TokenStream.query_eq_ok.1 h) hn
    have hmem : ⟨.int n, p'⟩ ∈ stream.tokens := by simp [htokens]
    exact ⟨stream, before, after, p, p', hstream, htokens, tokenize_int hstream hmem⟩

/-- The least integer on a line of its own, one more than the greatest behind zeros, the greatest
within a text, and a limit with a sign. -/
theorem tokenize_literal_bounds :
    tokenize ("\n " ++ "-9223372036854775808" ++ "\t") =
      .ok ⟨[⟨.int (-9223372036854775808), ⟨2, 2, 2⟩⟩], ⟨23, 2, 23⟩⟩ ∧
    tokenize (" " ++ "0009223372036854775808" ++ "") =
      .error ⟨⟨1, 1, 2⟩, .integerOutOfRange "0009223372036854775808"⟩ ∧
    tokenize ("(" ++ " " ++ "9223372036854775807" ++ " )") =
      .ok ⟨[⟨.openParen, ⟨0, 1, 1⟩⟩, ⟨.int 9223372036854775807, ⟨2, 1, 3⟩⟩,
        ⟨.closeParen, ⟨22, 1, 23⟩⟩], ⟨23, 1, 24⟩⟩ ∧
    ∃ q, Query.parse "show devices limit -00" = .ok q ∧ q.limit = some 0 ∧
      ∃ (p : Position) (l : IntLiteral), l.WrittenAt "show devices limit -00" p ∧ l.value = 0 := by
  have hblanks : ∀ {w : String}, w.toList.all Text.isBlank → ∀ c ∈ w.toList, Text.isBlank c :=
    fun h => List.all_eq_true.1 h
  have hleast := tokenize_literal.1
    ⟨true, "9223372036854775808".toList, by decide, List.all_eq_true.1 (by decide +kernel)⟩
    "\n " "\t" (hblanks (by decide +kernel)) (hblanks (by decide +kernel))
  have hrefused := tokenize_literal.1
    ⟨false, "0009223372036854775808".toList, by decide, List.all_eq_true.1 (by decide +kernel)⟩
    " " "" (hblanks (by decide +kernel)) (by simp)
  have hgreatest := tokenize_literal.2.1
    ⟨false, "9223372036854775807".toList, by decide, List.all_eq_true.1 (by decide +kernel)⟩
    "(" " " " )" _ rfl ⟨by decide, hblanks (by decide +kernel)⟩ (by simp; decide +kernel)
  rw [if_pos (by decide +kernel)] at hleast hgreatest
  rw [if_neg (by decide +kernel)] at hrefused
  obtain ⟨q, hq, hlimit⟩ : ∃ q, Query.parse "show devices limit -00" = .ok q ∧ q.limit = some 0 :=
    ⟨_, rfl, rfl⟩
  obtain ⟨_, _, _, _, p, -, -, l, hwritten, -, hvalue⟩ := tokenize_literal.2.2.2 _ q 0 hq hlimit
  exact ⟨hleast, hrefused, hgreatest, q, hq, hlimit, p, l, hwritten, hvalue⟩

end NetQuery
