import NetQuery.Dialect.Basic
import NetQuery.Proofs.Fields

/-!
# Reading back what is written

A text that is put together from words, literals and signs is read as the tokens that it was put
together from. Each of them is read on its own, whatever stands before it, as long as the text after
it does not start with something that would make it longer. So tokens are taken from the left one by
one, and only the first character after a token ever matters.
-/

namespace NetQuery.Lexer

/-! ## Text literals -/

/-- Reading a quoted text undoes the quoting, and ends at the quote that closes it. -/
theorem textTail_escape (value rest : List Char) :
    textTail '\'' (Dialect.escape value ++ '\'' :: rest) =
      some (value, (Dialect.escape value).length + 1) := by
  induction value with
  | nil => simp [Dialect.escape, textTail]
  | cons c value ih =>
    by_cases hc : c = '\\' ∨ c = '\''
    · -- An escaped character is taken together with the backslash before it.
      have hescape : Dialect.escape (c :: value) = '\\' :: c :: Dialect.escape value := by
        simp [Dialect.escape, hc]
      rw [hescape, List.cons_append, List.cons_append, textTail, ih]
      rfl
    · obtain ⟨hslash, hquote⟩ := not_or.1 hc
      have hescape : Dialect.escape (c :: value) = c :: Dialect.escape value := by
        simp [Dialect.escape, hc]
      rw [hescape, List.cons_append, textTail, if_neg hquote, ih]
      · rfl
      · exact fun _ _ hcontra => absurd hcontra hslash

/-! ## Integers -/

/-- An integer is written as the digits of its magnitude, after a minus sign if it is negative. -/
theorem toList_toString (n : Int) :
    (toString n).toList =
      if n < 0 then '-' :: Nat.toDigits 10 n.natAbs else Nat.toDigits 10 n.natAbs := by
  cases n with
  | ofNat n => simp [toString, Int.repr, Nat.repr]
  | negSucc n => simp [toString, Int.repr, Nat.repr]

/-- A run of digits ends before anything but a digit or a point. -/
theorem numberRun_digits {digits rest : List Char} (hdigits : ∀ c ∈ digits, Number.isDigit c)
    (hrest : ∀ c ∈ rest.head?, Number.isDigit c = false ∧ c ≠ '.') :
    numberRun (digits ++ rest) = digits := by
  induction digits with
  | nil =>
    cases rest with
    | nil => rfl
    | cons c rest => cases rest <;> simp [numberRun, hrest c rfl]
  | cons c digits ih =>
    have hc : Number.isDigit c := hdigits c List.mem_cons_self
    have ih := ih fun d hd => hdigits d (List.mem_cons_of_mem _ hd)
    cases htail : digits ++ rest with
    | nil =>
      obtain ⟨rfl, rfl⟩ := List.append_eq_nil_iff.1 htail
      simp [numberRun, hc]
    | cons d tail =>
      rw [List.cons_append, htail, numberRun, if_pos (by simp [hc]), ← htail, ih]

/-- Digits without a point are an integer, if it fits 64 bits. -/
theorem numberKind_digits {negative : Bool} {digits : List Char} {n : Int}
    (hdigits : ∀ c ∈ digits, Number.isDigit c)
    (hn : n = if negative then -(Number.value digits : Int) else Number.value digits) :
    numberKind negative digits =
      if leastInt ≤ n ∧ n ≤ greatestInt then .ok (.int n)
      else .error (.integerOutOfRange
        (String.ofList (if negative then '-' :: digits else digits))) := by
  have hpoint : '.' ∉ digits := fun hmem => absurd (hdigits _ hmem) (by decide)
  simp only [numberKind, Text.splitOn_of_not_mem hpoint, ← hn, Bool.and_eq_true, decide_eq_true_eq]

theorem numberKind_toDigits {n : Int} (hleast : leastInt ≤ n) (hgreatest : n ≤ greatestInt) :
    numberKind (n < 0) (Nat.toDigits 10 n.natAbs) = .ok (.int n) := by
  have hvalue : Number.value (Nat.toDigits 10 n.natAbs) = n.natAbs :=
    Nat.ofDigitChars_ten_toDigits
  have hn : n = if decide (n < 0) then -(Number.value (Nat.toDigits 10 n.natAbs) : Int)
      else Number.value (Nat.toDigits 10 n.natAbs) := by
    rw [hvalue]
    by_cases hneg : n < 0
    · rw [if_pos (decide_eq_true hneg)]
      omega
    · rw [if_neg (by simpa using hneg)]
      omega
  rw [numberKind_digits (fun c hc => Nat.isDigit_of_mem_toDigits (by decide) (by decide) hc) hn,
    if_pos ⟨hleast, hgreatest⟩]

/-! ## The first character -/

/-- The characters that a sign, a text in quotes or a negative number starts with. -/
def signs : List Char := ['\'', '"', '(', ')', ',', '=', '!', '<', '>', '-']

/-- The token of a word. -/
def wordKind (word : String) : TokenKind := (Keyword.ofWord? word).elim (.name word) .keyword

/-- What starts with no sign is a number or a word. -/
theorem lexeme_of_not_sign {c : Char} (hc : c ∉ signs) (rest : List Char) :
    lexeme c rest =
      if Number.isDigit c then
        (numberKind false (numberRun (c :: rest))).map fun kind =>
          ⟨kind, (numberRun (c :: rest)).length - 1⟩
      else if startsWord c then
        .ok ⟨wordKind (String.ofList (c :: rest.takeWhile continuesWord)),
          (rest.takeWhile continuesWord).length⟩
      else .error (.unexpected c) := by
  simp only [signs, List.mem_cons, List.not_mem_nil, or_false, not_or] at hc
  obtain ⟨hquote, hdouble, hopen, hclose, hcomma, heq, hne, hlt, hgt, hminus⟩ := hc
  simp only [lexeme, hquote, hdouble, hopen, hclose, hcomma, heq, hne, hlt, hgt, hminus, wordKind,
    decide_false, Bool.or_self, Bool.false_and, Bool.false_eq_true, if_false]
  cases Keyword.ofWord? (String.ofList (c :: rest.takeWhile continuesWord)) <;> rfl

theorem not_mem_signs_of_startsWord {c : Char} (hc : startsWord c) : c ∉ signs := by
  have hsigns : signs.all (fun d => !startsWord d) := by decide +kernel
  intro hmem
  have hfalse := List.all_eq_true.1 hsigns c hmem
  simp [hc] at hfalse

theorem not_mem_signs_of_isDigit {c : Char} (hc : Number.isDigit c) : c ∉ signs := by
  have hsigns : signs.all (fun d => !Number.isDigit d) := by decide +kernel
  intro hmem
  have hfalse := List.all_eq_true.1 hsigns c hmem
  simp [hc] at hfalse

theorem lexeme_word {c : Char} {more rest : List Char} (hc : startsWord c)
    (hmore : ∀ d ∈ more, continuesWord d) (hrest : ∀ d ∈ rest.head?, continuesWord d = false) :
    lexeme c (more ++ rest) = .ok ⟨wordKind (String.ofList (c :: more)), more.length⟩ := by
  have hrun : (more ++ rest).takeWhile continuesWord = more :=
    Text.takeWhile_append_of_stop hmore hrest
  have hdigit := isDigit_eq_false_of_startsWord hc
  rw [lexeme_of_not_sign (not_mem_signs_of_startsWord hc), if_neg (by simp [hdigit]), if_pos hc,
    hrun]

theorem lexeme_digits {c : Char} {more rest : List Char} (hc : Number.isDigit c)
    (hmore : ∀ d ∈ more, Number.isDigit d)
    (hrest : ∀ d ∈ rest.head?, Number.isDigit d = false ∧ d ≠ '.') :
    lexeme c (more ++ rest) =
      (numberKind false (c :: more)).map fun kind => ⟨kind, more.length⟩ := by
  have hall : ∀ d ∈ c :: more, Number.isDigit d := by simpa [hc] using hmore
  have hrun : numberRun (c :: (more ++ rest)) = c :: more := numberRun_digits hall hrest
  rw [lexeme_of_not_sign (not_mem_signs_of_isDigit hc), if_pos hc, hrun]
  rfl

theorem lexeme_minus {digits rest : List Char} (hne : digits ≠ [])
    (hdigits : ∀ d ∈ digits, Number.isDigit d)
    (hrest : ∀ d ∈ rest.head?, Number.isDigit d = false ∧ d ≠ '.') :
    lexeme '-' (digits ++ rest) =
      (numberKind true digits).map fun kind => ⟨kind, digits.length⟩ := by
  have hrun := numberRun_digits hdigits hrest
  have hfirst : (digits ++ rest).head?.any Number.isDigit := by
    obtain ⟨d, ds, rfl⟩ := List.exists_cons_of_ne_nil hne
    simpa using hdigits d List.mem_cons_self
  simp only [lexeme, Char.reduceEq, decide_false, decide_true, Bool.or_self, Bool.true_and,
    Bool.false_eq_true, if_false, if_true, hfirst, hrun]

theorem lexeme_quote (value rest : List Char) :
    lexeme '\'' (Dialect.escape value ++ ['\''] ++ rest) =
      .ok ⟨.text (String.ofList value), (Dialect.escape value ++ ['\'']).length⟩ := by
  simp [lexeme, textTail_escape]

/-! ## Runs of tokens -/

/-- Characters that belong to a token already are passed over. -/
theorem scan_taken (taken : Nat) (p : Position) (cs : List Char) :
    scan taken p cs = scan 0 (p.advance (cs.take taken)) (cs.drop taken) := by
  induction cs generalizing taken p with
  | nil => simp [scan, Position.advance]
  | cons c cs ih =>
    cases taken with
    | zero => rfl
    | succ taken => rw [scan, ih, List.take_succ_cons, List.drop_succ_cons]; rfl

/-- A text is read as tokens of the given kinds, wherever it stands. -/
def Scans (cs : List Char) (kinds : List TokenKind) : Prop :=
  ∀ p, ∃ stream, scan 0 p cs = .ok stream ∧ stream.tokens.map Token.kind = kinds

theorem scans_nil : Scans [] [] := fun p => ⟨⟨[], p⟩, rfl, rfl⟩

theorem Scans.blank {c : Char} {cs : List Char} {kinds : List TokenKind} (hc : Text.isBlank c)
    (h : Scans cs kinds) : Scans (c :: cs) kinds := by
  intro p
  obtain ⟨stream, hstream, hkinds⟩ := h (p.after c)
  exact ⟨stream, by rw [scan, if_pos hc, hstream], hkinds⟩

/-- One step: the token that a text starts with, and the tokens of the rest. -/
theorem Scans.token {c : Char} {more rest : List Char} {kind : TokenKind} {kinds : List TokenKind}
    (hc : Text.isBlank c = false) (hl : lexeme c (more ++ rest) = .ok ⟨kind, more.length⟩)
    (h : Scans rest kinds) : Scans (c :: (more ++ rest)) (kind :: kinds) := by
  intro p
  obtain ⟨stream, hstream, hkinds⟩ := h ((p.after c).advance more)
  refine ⟨⟨⟨kind, p⟩ :: stream.tokens, stream.finish⟩, ?_, by simp [hkinds]⟩
  rw [scan, if_neg (by simp [hc]), hl]
  simp only
  rw [scan_taken, List.take_left, List.drop_left, hstream]

/-! ## Words between spaces -/

/-- A word is read as the given tokens wherever it stands before a space or at the end. -/
def ReadsAs (w : String) (kinds : List TokenKind) : Prop :=
  ∀ ⦃rest : List Char⦄ ⦃more : List TokenKind⦄, (∀ c ∈ rest.head?, c = ' ') → Scans rest more →
    Scans (w.toList ++ rest) (kinds ++ more)

/-- Words that are read one by one. -/
inductive Spells : List String → List TokenKind → Prop where
  | nil : Spells [] []
  | cons {w : String} {ws : List String} {ks ls : List TokenKind} (h : ReadsAs w ks)
      (hs : Spells ws ls) : Spells (w :: ws) (ks ++ ls)

theorem Spells.single {w : String} {ks : List TokenKind} (h : ReadsAs w ks) : Spells [w] ks := by
  simpa using Spells.cons h .nil

theorem Spells.append {ws vs : List String} {ks ls : List TokenKind} (hw : Spells ws ks)
    (hv : Spells vs ls) : Spells (ws ++ vs) (ks ++ ls) := by
  induction hw with
  | nil => exact hv
  | cons h _ ih =>
    rw [List.append_assoc]
    exact .cons h ih

/-- Words with a space between neighbours are read as their tokens, one after the other. -/
theorem Spells.scans {ws : List String} {ks : List TokenKind} (h : Spells ws ks) :
    Scans (Text.join " " ws).toList ks := by
  induction h with
  | nil => exact scans_nil
  | @cons w ws ks ls hw hs ih =>
    cases ws with
    | nil =>
      cases hs
      simpa [Text.join] using hw (by simp) scans_nil
    | cons v ws =>
      have hjoin : (Text.join " " (w :: v :: ws)).toList =
          w.toList ++ ' ' :: (Text.join " " (v :: ws)).toList :=
        Text.toList_join_cons " " w (by simp)
      rw [hjoin]
      exact hw (by simp) (ih.blank (by decide))

/-- A word is read as one token, unless more of a word follows. -/
theorem Scans.word {w : String} (hne : w.toList ≠ []) (hstart : ∀ c ∈ w.toList.head?, startsWord c)
    (hword : ∀ c ∈ w.toList, continuesWord c) {rest : List Char} {kinds : List TokenKind}
    (hrest : ∀ c ∈ rest.head?, continuesWord c = false) (h : Scans rest kinds) :
    Scans (w.toList ++ rest) (wordKind w :: kinds) := by
  obtain ⟨c, more, hw⟩ := List.exists_cons_of_ne_nil hne
  rw [hw] at hstart hword ⊢
  have hc : startsWord c := hstart c rfl
  have hblank := isBlank_eq_false_of_continuesWord (hword c List.mem_cons_self)
  have hl := lexeme_word hc (fun d hd => hword d (List.mem_cons_of_mem _ hd)) hrest
  rw [← hw, String.ofList_toList] at hl
  exact h.token hblank hl

theorem Scans.name {w : String} (hw : IsName w) {rest : List Char} {kinds : List TokenKind}
    (hrest : ∀ c ∈ rest.head?, continuesWord c = false) (h : Scans rest kinds) :
    Scans (w.toList ++ rest) (.name w :: kinds) := by
  have hkind : wordKind w = .name w := by simp [wordKind, hw.noKeyword]
  exact hkind ▸ h.word hw.ne_nil hw.start hw.word hrest

theorem continuesWord_of_cons {c : Char} (hc : continuesWord c = false) (cs : List Char) :
    ∀ d ∈ (c :: cs).head?, continuesWord d = false := by
  simpa using hc

theorem continuesWord_of_space {rest : List Char} (h : ∀ c ∈ rest.head?, c = ' ') :
    ∀ c ∈ rest.head?, continuesWord c = false := by
  intro c hc
  rw [h c hc]
  decide

theorem readsAs_name {w : String} (hw : IsName w) : ReadsAs w [.name w] :=
  fun _ _ hrest h => h.name hw (continuesWord_of_space hrest)

theorem readsAs_keyword (k : Keyword) : ReadsAs k.text [.keyword k] := by
  have hne : k.text.toList ≠ [] := by cases k <;> decide
  have hstart : k.text.toList.head?.all startsWord := by cases k <;> decide +kernel
  have hword : k.text.toList.all continuesWord := by cases k <;> decide +kernel
  have hkind : wordKind k.text = .keyword k := by
    have hofWord : Keyword.ofWord? k.text = some k := by cases k <;> decide +kernel
    simp [wordKind, hofWord]
  intro rest more hrest h
  have hscans := h.word hne (by simpa [Option.all_eq_true] using hstart)
    (List.all_eq_true.1 hword) (continuesWord_of_space hrest)
  rwa [hkind] at hscans

theorem readsAs_quote (value : String) : ReadsAs (Dialect.quote value) [.text value] := by
  intro rest more _ h
  have hl := lexeme_quote value.toList rest
  rw [String.ofList_toList] at hl
  rw [Dialect.quote, String.toList_ofList]
  exact h.token (by decide) hl

/-- An integer that fits 64 bits is read as itself. -/
theorem readsAs_int {n : Int} (hleast : leastInt ≤ n) (hgreatest : n ≤ greatestInt) :
    ReadsAs (toString n) [.int n] := by
  intro rest more hspace h
  have hdigits : ∀ c ∈ Nat.toDigits 10 n.natAbs, Number.isDigit c := fun c hc =>
    Nat.isDigit_of_mem_toDigits (by decide) (by decide) hc
  have hrest : ∀ c ∈ rest.head?, Number.isDigit c = false ∧ c ≠ '.' := by
    intro c hc
    rw [hspace c hc]
    decide
  have hkind := numberKind_toDigits hleast hgreatest
  rw [toList_toString]
  by_cases hn : n < 0
  · rw [decide_eq_true hn] at hkind
    rw [if_pos hn]
    refine h.token (by decide) ?_
    rw [lexeme_minus Nat.toDigits_ne_nil hdigits hrest, hkind]
    rfl
  · rw [decide_eq_false hn] at hkind
    rw [if_neg hn]
    obtain ⟨c, ds, hds⟩ := List.exists_cons_of_ne_nil (Nat.toDigits_ne_nil (b := 10) (n := n.natAbs))
    rw [hds] at hdigits hkind ⊢
    have hc : Number.isDigit c := hdigits c List.mem_cons_self
    have hblank : Text.isBlank c = false :=
      isBlank_eq_false_of_continuesWord (continuesWord_of_isDigit hc)
    refine h.token hblank ?_
    rw [lexeme_digits hc (fun d hd => hdigits d (List.mem_cons_of_mem _ hd)) hrest, hkind]
    rfl

/-! ## The tokens of a text -/

theorem numberKind_int {negative : Bool} {run : List Char} {n : Int}
    (h : numberKind negative run = .ok (.int n)) : leastInt ≤ n ∧ n ≤ greatestInt := by
  unfold numberKind at h
  generalize Text.splitOn '.' run = parts at h
  cases negative <;> simp only [Bool.false_eq_true, if_true, if_false] at h <;> split at h
  all_goals first
    | cases h
    | split at h
      · cases h
        simp_all
      · cases h

theorem lexeme_int {c : Char} {rest : List Char} {l : Lexeme} {n : Int}
    (h : lexeme c rest = .ok l) (hn : l.kind = .int n) : leastInt ≤ n ∧ n ≤ greatestInt := by
  revert h
  fun_cases lexeme c rest with
  | case15 => exact fun h => numberKind_int (hn ▸ numberKind_of_map h)
  | case16 => exact fun h => numberKind_int (hn ▸ numberKind_of_map h)
  | case17 _ _ _ _ _ _ _ _ _ _ _ more word kind =>
    intro h
    obtain rfl := Except.ok.inj h
    cases hkeyword : Keyword.ofWord? word <;> simp [kind, hkeyword] at hn
  | _ =>
    intro h
    cases h <;> cases hn

end NetQuery.Lexer
