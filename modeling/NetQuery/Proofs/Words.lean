import Mathlib
import NetQuery.Token.Lexer

/-!
# Words

Names come into a query as tokens, and a token that is a name holds a word: a letter or an
underscore, then letters, numerals, underscores and points, which together spell no keyword. This is
all that is ever known about a name, and it is enough: a word has no blank, no comma, no parenthesis
and no mark of a placeholder in it, so whatever is written around it can be told from it again.
-/

namespace NetQuery.Lexer

/-- What the text of a name is like. -/
structure IsName (w : String) : Prop where
  /-- There is a first character. -/
  ne_nil : w.toList ≠ []
  /-- The first character may start a word. -/
  start : ∀ c ∈ w.toList.head?, startsWord c
  /-- All characters may stand in a word. -/
  word : ∀ c ∈ w.toList, continuesWord c
  /-- The word is no keyword. -/
  noKeyword : Keyword.ofWord? w = none

/-! ## Characters -/

theorem continuesWord_of_startsWord {c : Char} (h : startsWord c) : continuesWord c := by
  simp only [startsWord, continuesWord, Text.isLetter, Text.isLetterOrNumeral, Bool.or_eq_true,
    decide_eq_true_eq, Char.isAlphanum] at h ⊢
  rcases h with h | h
  · split at h <;> simp_all
  · exact Or.inl (Or.inr h)

/-- A letter in small letters is still a letter, and nothing else changes. -/
theorem toLower_eq_or_isLower (c : Char) : c.toLower = c ∨ c.toLower.isLower := by
  by_cases h : c.isUpper
  · right
    rw [Char.isLower_toLower_eq_isAlpha]
    simp [Char.isAlpha, h]
  · left
    exact Char.toLower_eq_of_not_isUpper h

theorem toNat_lt_of_isLower {c : Char} (h : c.isLower) : c.toNat < 0x80 := by
  simp only [Char.isLower, Bool.and_eq_true, decide_eq_true_eq, ge_iff_le] at h
  have := UInt32.le_iff_toNat_le.1 h.2
  simp only [Char.toNat]
  exact Nat.lt_of_le_of_lt this (by decide)

theorem startsWord_of_isLower {c : Char} (h : c.isLower) : startsWord c := by
  simp [startsWord, Text.isLetter, toNat_lt_of_isLower h, Char.isAlpha, h]

theorem startsWord_toLower {c : Char} (h : startsWord c) : startsWord c.toLower := by
  rcases toLower_eq_or_isLower c with heq | hlower
  · rw [heq]
    exact h
  · exact startsWord_of_isLower hlower

theorem continuesWord_toLower {c : Char} (h : continuesWord c) : continuesWord c.toLower := by
  rcases toLower_eq_or_isLower c with heq | hlower
  · rw [heq]
    exact h
  · exact continuesWord_of_startsWord (startsWord_of_isLower hlower)

theorem toNat_bounds_of_isDigit {c : Char} (h : Number.isDigit c) :
    48 ≤ c.toNat ∧ c.toNat ≤ 57 := by
  simpa [Number.isDigit, Char.isDigit, UInt32.le_iff_toNat_le, ← Char.toNat_val] using h

theorem continuesWord_of_isDigit {c : Char} (h : Number.isDigit c) : continuesWord c := by
  have hbounds := toNat_bounds_of_isDigit h
  have hlt : c.toNat < 0x80 := by omega
  rw [Number.isDigit] at h
  simp [continuesWord, Text.isLetterOrNumeral, hlt, Char.isAlphanum, h]

/-- No word starts with a digit. -/
theorem isDigit_eq_false_of_startsWord {c : Char} (h : startsWord c) : Number.isDigit c = false := by
  by_contra hdigit
  have hbounds := toNat_bounds_of_isDigit (Bool.not_eq_false _ ▸ hdigit)
  have hlt : c.toNat < 0x80 := by omega
  simp only [startsWord, Text.isLetter, hlt, if_true, Bool.or_eq_true, decide_eq_true_eq] at h
  rcases h with h | rfl
  · simp only [Char.isAlpha, Char.isUpper, Char.isLower, Bool.or_eq_true, Bool.and_eq_true,
      decide_eq_true_eq, ge_iff_le, UInt32.le_iff_toNat_le, ← Char.toNat_val] at h hbounds
    have hZ : 'A'.val.toNat = 65 := rfl
    have hz : 'a'.val.toNat = 97 := rfl
    omega
  · revert hbounds
    decide

/-- The blank characters, one by one. -/
def blanks : List Nat :=
  [0x9, 0xa, 0xb, 0xc, 0xd, 0x20, 0x85, 0xa0, 0x1680, 0x2000, 0x2001, 0x2002, 0x2003, 0x2004,
    0x2005, 0x2006, 0x2007, 0x2008, 0x2009, 0x200a, 0x2028, 0x2029, 0x202f, 0x205f, 0x3000]

theorem toNat_mem_blanks {c : Char} (h : Text.isBlank c) : c.toNat ∈ blanks := by
  have hranges : ∀ r ∈ Text.blankRanges, ∀ i < r.2 + 1 - r.1, r.1 + i ∈ blanks := by decide +kernel
  obtain ⟨⟨first, last⟩, hmem, hle⟩ := List.any_eq_true.1 h
  simp only [Bool.and_eq_true, decide_eq_true_eq] at hle
  have hblank := hranges _ hmem (c.toNat - first) (by simp only; omega)
  rwa [Nat.add_sub_cancel' hle.1] at hblank

theorem continuesWord_blanks : ∀ n ∈ blanks, continuesWord (Char.ofNat n) = false := by
  decide +kernel

/-- No blank stands in a word. -/
theorem isBlank_eq_false_of_continuesWord {c : Char} (h : continuesWord c) :
    Text.isBlank c = false := by
  by_contra hblank
  have hfalse := continuesWord_blanks _ (toNat_mem_blanks (Bool.not_eq_false _ ▸ hblank))
  rw [Char.ofNat_toNat, h] at hfalse
  exact absurd hfalse (by decide)

/-! ## Tokens -/

/-- Digits and points are never a name. -/
theorem numberKind_ne_name {negative : Bool} {run : List Char} {kind : TokenKind} {w : String}
    (h : numberKind negative run = .ok kind) : kind ≠ .name w := by
  rintro rfl
  unfold numberKind at h
  generalize Text.splitOn '.' run = parts at h
  cases negative <;> simp only [Bool.false_eq_true, if_true, if_false] at h <;> split at h
  all_goals first | (split at h <;> cases h) | cases h

theorem numberKind_of_map {negative : Bool} {run : List Char} {more : Nat} {l : Lexeme}
    (h : (numberKind negative run).map (fun kind => Lexeme.mk kind more) = .ok l) :
    numberKind negative run = .ok l.kind := by
  cases hkind : numberKind negative run with
  | error fault => simp [hkind, Except.map] at h
  | ok kind =>
    rw [hkind] at h
    cases h
    rfl

/-- A word that is no keyword is a name. -/
theorem isName_ofList {c : Char} {rest : List Char} (hc : startsWord c)
    (hword : Keyword.ofWord? (String.ofList (c :: rest.takeWhile continuesWord)) = none) :
    IsName (String.ofList (c :: rest.takeWhile continuesWord)) where
  ne_nil := by simp
  start := by simpa using hc
  word := by
    simp only [String.toList_ofList, List.mem_cons, forall_eq_or_imp]
    exact ⟨continuesWord_of_startsWord hc, fun _ => List.mem_takeWhile_imp⟩
  noKeyword := hword

/-- A token that is a name holds a word. -/
theorem lexeme_name {c : Char} {rest : List Char} {l : Lexeme} {w : String}
    (h : lexeme c rest = .ok l) (hw : l.kind = .name w) : IsName w := by
  revert h
  fun_cases lexeme c rest with
  | case15 => exact fun h => absurd hw (numberKind_ne_name (numberKind_of_map h))
  | case16 => exact fun h => absurd hw (numberKind_ne_name (numberKind_of_map h))
  | case17 _ _ _ _ _ _ _ _ _ _ hstart more word kind =>
    intro h
    obtain rfl := Except.ok.inj h
    cases hkeyword : Keyword.ofWord? word with
    | some k => simp [kind, hkeyword] at hw
    | none =>
      obtain rfl : word = w := by simpa [kind, hkeyword] using hw
      exact isName_ofList hstart hkeyword
  | _ =>
    intro h
    cases h <;> cases hw

/-- Every token of a text was read from some place of it. -/
theorem scan_lexeme {taken : Nat} {p : Position} {cs : List Char} {stream : TokenStream}
    (h : scan taken p cs = .ok stream) :
    ∀ t ∈ stream.tokens, ∃ c rest l, lexeme c rest = .ok l ∧ l.kind = t.kind := by
  revert h
  fun_induction scan taken p cs generalizing stream with
  | case1 =>
    intro h
    cases h
    simp
  | case2 p taken c cs ih => exact ih
  | case3 p c cs hblank ih => exact ih
  | case4 => exact nofun
  | case5 => exact nofun
  | case6 p c cs hblank l hl stream' hstream ih =>
    intro h
    cases h
    intro t ht
    rcases List.mem_cons.1 ht with rfl | ht
    · exact ⟨c, cs, l, hl, rfl⟩
    · exact ih hstream t ht

end NetQuery.Lexer

namespace NetQuery

/-- The names among the tokens of a text are words. -/
theorem tokenize_name {text : String} {stream : TokenStream} (h : tokenize text = .ok stream) :
    ∀ t ∈ stream.tokens, ∀ w, t.kind = .name w → Lexer.IsName w := by
  intro t ht w hw
  obtain ⟨c, rest, l, hl, hkind⟩ := Lexer.scan_lexeme h t ht
  exact Lexer.lexeme_name hl (hkind.trans hw)

end NetQuery
