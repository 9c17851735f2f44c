import NetQuery.Proofs.Lexing

/-!
# The case of letters in a text

A reader may write keywords, names and functions in any case. `Lexer.recases` says when one text is
another with the case of some ASCII letters changed, none of them inside a text literal. Two such
texts have the same tokens in the same places, except that a name keeps the case that it was written
in; `lowered` forgets that case.

No ASCII letter is a blank, a digit, a sign or a line feed, and all of them may stand anywhere in a
word. So every test that the lexer makes has one answer for all letters, and `congr_of_toLower_eq`
carries it from a character to the same character in the other case.
-/

namespace NetQuery.Lexer

/-! ## Letters in another case -/

theorem eq_or_isAlpha_of_toLower_eq {c d : Char} (h : c.toLower = d.toLower) :
    c = d ∨ (c.isAlpha ∧ d.isAlpha) := by
  by_cases hc : c.isAlpha
  · right
    refine ⟨hc, ?_⟩
    rw [← Char.isLower_toLower_eq_isAlpha, ← h, Char.isLower_toLower_eq_isAlpha, hc]
  · have hd : ¬d.isAlpha := by
      rw [← Char.isLower_toLower_eq_isAlpha, ← h, Char.isLower_toLower_eq_isAlpha]
      exact hc
    simp only [Char.isAlpha, Bool.or_eq_true, not_or] at hc hd
    left
    rwa [Char.toLower_eq_of_not_isUpper hc.1, Char.toLower_eq_of_not_isUpper hd.1] at h

/-- What is the same of all letters is the same of a character in either case. -/
theorem congr_of_toLower_eq {α : Type} {f : Char → α} {a : α} (hf : ∀ c : Char, c.isAlpha → f c = a)
    {c d : Char} (h : c.toLower = d.toLower) : f c = f d := by
  rcases eq_or_isAlpha_of_toLower_eq h with rfl | ⟨hc, hd⟩
  · rfl
  · rw [hf c hc, hf d hd]

theorem toNat_lt_of_isAlpha {c : Char} (h : c.isAlpha) : c.toNat < 0x80 := by
  simp only [Char.isAlpha, Char.isUpper, Char.isLower, Bool.or_eq_true, Bool.and_eq_true,
    decide_eq_true_eq, ge_iff_le, UInt32.le_iff_toNat_le, ← Char.toNat_val] at h ⊢
  have hZ : 'Z'.val.toNat = 90 := rfl
  have hz : 'z'.val.toNat = 122 := rfl
  omega

theorem startsWord_of_isAlpha {c : Char} (h : c.isAlpha) : startsWord c := by
  simp [startsWord, Text.isLetter, toNat_lt_of_isAlpha h, h]

theorem ne_of_isAlpha {c d : Char} (hd : d.isAlpha = false) (h : c.isAlpha) : c ≠ d := by
  rintro rfl
  simp [hd] at h

/-- A character that is no letter has no other case. -/
theorem eq_of_toLower_eq {c d : Char} (hc : c.isAlpha = false) (h : c.toLower = d.toLower) :
    d = c := by
  rcases eq_or_isAlpha_of_toLower_eq h with rfl | ⟨halpha, -⟩
  · rfl
  · simp [hc] at halpha

theorem startsWord_congr {c d : Char} (h : c.toLower = d.toLower) : startsWord c = startsWord d :=
  congr_of_toLower_eq (fun _ => startsWord_of_isAlpha) h

theorem continuesWord_congr {c d : Char} (h : c.toLower = d.toLower) :
    continuesWord c = continuesWord d :=
  congr_of_toLower_eq (fun _ hc => continuesWord_of_startsWord (startsWord_of_isAlpha hc)) h

theorem isBlank_congr {c d : Char} (h : c.toLower = d.toLower) : Text.isBlank c = Text.isBlank d :=
  congr_of_toLower_eq (fun _ hc => isBlank_eq_false_of_continuesWord
    (continuesWord_of_startsWord (startsWord_of_isAlpha hc))) h

theorem isDigit_congr {c d : Char} (h : c.toLower = d.toLower) :
    Number.isDigit c = Number.isDigit d :=
  congr_of_toLower_eq (fun _ hc => isDigit_eq_false_of_startsWord (startsWord_of_isAlpha hc)) h

/-- A letter takes one byte and ends no line, in either case. -/
theorem after_congr {c d : Char} (h : c.toLower = d.toLower) (p : Position) :
    p.after c = p.after d := by
  refine congr_of_toLower_eq (a := ⟨p.offset + 1, p.line, p.column + 1⟩) ?_ h
  intro c hc
  have hline : c ≠ '\n' := ne_of_isAlpha (by decide) hc
  have hsize : c.utf8Size = 1 := by
    have hlt := toNat_lt_of_isAlpha hc
    rw [Char.utf8Size_eq_one_iff, UInt32.le_iff_toNat_le]
    exact Nat.le_of_lt_succ hlt
  rw [Position.after, if_neg hline, hsize]

/-! ## Texts in another case -/

/-- A quote opens a text literal. -/
def isQuote (c : Char) : Bool := c = '\'' || c = '"'

/-- The number of characters that belong to a text literal after its opening quote. -/
def literalLength (quote : Char) (rest : List Char) : Nat :=
  ((textTail quote rest).map Prod.snd).getD 0

/-- The second text is the first with the case of some ASCII letters changed outside its text
literals. The first `taken` characters belong to a literal that has been opened already. -/
def recases : (taken : Nat) → List Char → List Char → Bool
  | _, [], [] => true
  | taken + 1, c :: cs, d :: ds => c = d && recases taken cs ds
  | 0, c :: cs, d :: ds =>
    if isQuote c then c = d && recases (literalLength c cs) cs ds
    else c.toLower = d.toLower && recases 0 cs ds
  | _, _, _ => false

variable {c d : Char} {cs ds : List Char}

/-- Two characters that differ at most in the case of an ASCII letter. -/
abbrev SameLetter (c d : Char) : Prop := c.toLower = d.toLower

theorem recases_taken {taken : Nat} (h : recases taken cs ds) :
    cs.take taken = ds.take taken ∧ recases 0 (cs.drop taken) (ds.drop taken) := by
  induction taken generalizing cs ds with
  | zero => exact ⟨rfl, h⟩
  | succ taken ih =>
    cases cs with
    | nil =>
      cases ds with
      | nil => exact ⟨rfl, rfl⟩
      | cons d ds => simp [recases] at h
    | cons c cs =>
      cases ds with
      | nil => simp [recases] at h
      | cons d ds =>
        obtain ⟨rfl, htail⟩ : c = d ∧ recases taken cs ds := by simpa [recases] using h
        obtain ⟨htake, hdrop⟩ := ih htail
        exact ⟨by simp [htake], hdrop⟩

/-- A quote opens the same literal in both texts. -/
theorem recases_quote (hc : isQuote c) (h : recases 0 (c :: cs) (d :: ds)) :
    d = c ∧ cs.take (literalLength c cs) = ds.take (literalLength c cs) ∧
      recases 0 (cs.drop (literalLength c cs)) (ds.drop (literalLength c cs)) := by
  obtain ⟨rfl, htail⟩ : c = d ∧ recases (literalLength c cs) cs ds := by
    simpa [recases, hc] using h
  exact ⟨rfl, recases_taken htail⟩

theorem recases_char (hc : isQuote c = false) (h : recases 0 (c :: cs) (d :: ds)) :
    SameLetter c d ∧ recases 0 cs ds := by
  simpa [recases, hc] using h

/-- Character by character the texts differ at most in case. -/
theorem recases_forall {taken : Nat} (h : recases taken cs ds) : List.Forall₂ SameLetter cs ds := by
  revert h
  fun_induction recases taken cs ds with
  | case1 => exact fun _ => .nil
  | case2 taken c cs d ds ih =>
    intro h
    obtain ⟨rfl, htail⟩ : c = d ∧ recases taken cs ds := by simpa using h
    exact .cons rfl (ih htail)
  | case3 c cs d ds hc ih =>
    intro h
    obtain ⟨rfl, htail⟩ : c = d ∧ recases (literalLength c cs) cs ds := by simpa using h
    exact .cons rfl (ih htail)
  | case4 c cs d ds hc ih =>
    intro h
    obtain ⟨hcase, htail⟩ : c.toLower = d.toLower ∧ recases 0 cs ds := by simpa using h
    exact .cons hcase (ih htail)
  | case5 => exact nofun

/-- Where no literal is opened, any number of characters may be left out. -/
theorem recases_drop {n : Nat} (hrun : ∀ c ∈ cs.take n, isQuote c = false)
    (h : recases 0 cs ds) : recases 0 (cs.drop n) (ds.drop n) := by
  induction n generalizing cs ds with
  | zero => exact h
  | succ n ih =>
    cases cs with
    | nil =>
      cases ds with
      | nil => exact h
      | cons d ds => simp [recases] at h
    | cons c cs =>
      cases ds with
      | nil => simp [recases] at h
      | cons d ds =>
        rw [List.take_succ_cons] at hrun
        have htail := (recases_char (hrun c List.mem_cons_self) h).2
        exact ih (fun e he => hrun e (List.mem_cons_of_mem _ he)) htail

/-! ## The parts of a token -/

/-- A literal is read from its own characters, whatever follows it. -/
theorem textTail_congr {quote : Char} {value : List Char} {n : Nat} (hquote : isQuote quote)
    (h : textTail quote cs = some (value, n)) (htake : cs.take n = ds.take n) :
    textTail quote ds = some (value, n) := by
  fun_induction textTail quote cs generalizing ds value n with
  | case1 => cases h
  | case2 c cs ih =>
    obtain ⟨⟨v, m⟩, htail, hvalue⟩ := Option.map_eq_some_iff.1 h
    cases hvalue
    rcases ds with _ | ⟨e, _ | ⟨f, ds⟩⟩
    · simp at htake
    · simp at htake
    · simp only [List.take_succ_cons, List.cons.injEq] at htake
      obtain ⟨rfl, rfl, htake⟩ := htake
      rw [textTail, ih htail htake]
      rfl
  | case3 cs hslash =>
    cases h
    rcases ds with _ | ⟨e, ds⟩
    · simp at htake
    · obtain rfl : quote = e := by simpa using htake
      rw [textTail, if_pos rfl]
      rintro _ _ rfl
      simp [isQuote] at hquote
  | case4 c cs hslash hne ih =>
    obtain ⟨⟨v, m⟩, htail, hvalue⟩ := Option.map_eq_some_iff.1 h
    cases hvalue
    rcases ds with _ | ⟨e, ds⟩
    · simp at htake
    · simp only [List.take_succ_cons, List.cons.injEq] at htake
      obtain ⟨rfl, htake⟩ := htake
      rw [textTail, if_neg hne, ih htail htake]
      · rfl
      · -- A backslash takes the next character with it, so nothing is left after this one.
        rintro x xs rfl rfl
        rcases cs with _ | ⟨y, ys⟩
        · cases htail
        · exact hslash y ys rfl rfl

theorem forall_takeWhile {p : Char → Bool} (hp : ∀ {c d}, SameLetter c d → p c = p d)
    (h : List.Forall₂ SameLetter cs ds) :
    List.Forall₂ SameLetter (cs.takeWhile p) (ds.takeWhile p) := by
  induction h with
  | nil => exact .nil
  | @cons c d cs ds hcase _ ih =>
    rw [List.takeWhile_cons, List.takeWhile_cons, ← hp hcase]
    split
    · exact .cons hcase ih
    · exact .nil

theorem map_toLower_eq (h : List.Forall₂ SameLetter cs ds) :
    cs.map Char.toLower = ds.map Char.toLower := by
  induction h with
  | nil => rfl
  | cons hcase _ ih => rw [List.map_cons, List.map_cons, hcase, ih]

theorem head?_congr (h : List.Forall₂ SameLetter cs ds) {x : Char} (hx : x.isAlpha = false) :
    cs.head? = some x ↔ ds.head? = some x := by
  cases h with
  | nil => rfl
  | cons hcase _ =>
    simp only [List.head?_cons, Option.some.injEq]
    constructor
    · rintro rfl
      exact eq_of_toLower_eq hx hcase
    · rintro rfl
      exact eq_of_toLower_eq hx hcase.symm

theorem forall_numberRun (h : List.Forall₂ SameLetter cs ds) :
    List.Forall₂ SameLetter (numberRun cs) (numberRun ds) := by
  induction h with
  | nil => exact .nil
  | @cons c d cs ds hcase hrest ih =>
    cases hrest with
    | nil =>
      rw [numberRun, numberRun, ← isDigit_congr hcase]
      split
      · exact .cons hcase .nil
      · exact .nil
    | @cons e f cs ds hcase' hrest =>
      have hpoint : c = '.' ↔ d = '.' := by
        simpa using head?_congr (.cons hcase .nil) (x := '.') (by decide)
      rw [numberRun, numberRun, ← isDigit_congr hcase, ← isDigit_congr hcase']
      simp only [hpoint]
      split
      · exact .cons hcase ih
      · exact .nil

theorem isDigit_or_of_mem_numberRun (hc : c ∈ numberRun cs) : Number.isDigit c ∨ c = '.' := by
  fun_induction numberRun cs with
  | case1 => simp at hc
  | case2 d hd => simpa [List.mem_singleton.1 hc] using Or.inl hd
  | case3 => simp at hc
  | case4 d e cs hd ih =>
    rcases List.mem_cons.1 hc with rfl | hc
    · simp only [Bool.or_eq_true, Bool.and_eq_true, decide_eq_true_eq] at hd
      exact hd.imp_right And.left
    · exact ih hc
  | case5 => simp at hc

/-- Digits and points have no case. -/
theorem numberRun_congr (h : List.Forall₂ SameLetter cs ds) : numberRun cs = numberRun ds := by
  have hrun := forall_numberRun h
  have hplain : ∀ c ∈ numberRun cs, c.isAlpha = false := by
    intro c hc
    by_contra halpha
    have hstart := startsWord_of_isAlpha (Bool.not_eq_false _ ▸ halpha)
    rcases isDigit_or_of_mem_numberRun hc with hdigit | rfl
    · simp [isDigit_eq_false_of_startsWord hstart] at hdigit
    · exact absurd hstart (by decide)
  generalize numberRun cs = run at hrun hplain
  generalize numberRun ds = run' at hrun
  induction hrun with
  | nil => rfl
  | cons hcase _ ih =>
    rw [eq_of_toLower_eq (hplain _ List.mem_cons_self) hcase,
      ih fun c hc => hplain c (List.mem_cons_of_mem _ hc)]

theorem take_numberRun (cs : List Char) : cs.take (numberRun cs).length = numberRun cs := by
  fun_induction numberRun cs with
  | case1 => rfl
  | case2 => rfl
  | case3 => rfl
  | case4 c d cs hc ih => simp [ih]
  | case5 => rfl

theorem isQuote_eq_false_of {p : Char → Bool} (hsingle : p '\'' = false) (hdouble : p '"' = false)
    (h : p c) : isQuote c = false := by
  by_contra hquote
  simp only [isQuote, Bool.not_eq_false, Bool.or_eq_true, decide_eq_true_eq] at hquote
  rcases hquote with rfl | rfl
  · simp [hsingle] at h
  · simp [hdouble] at h

theorem isQuote_of_continuesWord (h : continuesWord c) : isQuote c = false :=
  isQuote_eq_false_of (by decide) (by decide) h

theorem isQuote_of_mem_numberRun (hc : c ∈ numberRun cs) : isQuote c = false := by
  rcases isDigit_or_of_mem_numberRun hc with hdigit | rfl
  · exact isQuote_of_continuesWord (continuesWord_of_isDigit hdigit)
  · rfl

theorem more_of_map {negative : Bool} {run : List Char} {more : Nat} {l : Lexeme}
    (h : (numberKind negative run).map (fun kind => Lexeme.mk kind more) = .ok l) :
    l.more = more := by
  cases hkind : numberKind negative run with
  | error fault => simp [hkind, Except.map] at h
  | ok kind =>
    rw [hkind] at h
    cases h
    rfl

/-- There are quotes in no token but a text literal. -/
theorem lexeme_no_quote {l : Lexeme} (hc : isQuote c = false) (hl : lexeme c cs = .ok l) :
    ∀ e ∈ cs.take l.more, isQuote e = false := by
  have hsign : ∀ {x : Char}, isQuote x = false → cs.head? = some x →
      ∀ e ∈ cs.take 1, isQuote e = false := by
    intro x hx hhead e he
    rw [List.take_one, hhead] at he
    rwa [List.mem_singleton.1 he]
  revert hl
  fun_cases lexeme c cs with
  | case1 hquote => simp [isQuote, hquote] at hc
  | case2 hquote => simp [isQuote, hquote] at hc
  | case6 _ _ _ _ _ hhead => exact fun h => by cases h; exact hsign rfl hhead
  | case8 _ _ _ _ _ _ hhead => exact fun h => by cases h; exact hsign rfl hhead
  | case10 _ _ _ _ _ _ _ hhead => exact fun h => by cases h; exact hsign rfl hhead
  | case11 _ _ _ _ _ _ _ _ hhead => exact fun h => by cases h; exact hsign rfl hhead
  | case13 _ _ _ _ _ _ _ _ hhead => exact fun h => by cases h; exact hsign rfl hhead
  | case15 =>
    intro h e he
    rw [more_of_map h, take_numberRun] at he
    exact isQuote_of_mem_numberRun he
  | case16 =>
    intro h e he
    have hmem : e ∈ (c :: cs).take (numberRun (c :: cs)).length := by
      cases hlength : (numberRun (c :: cs)).length with
      | zero =>
        rw [more_of_map h, hlength] at he
        exact absurd he List.not_mem_nil
      | succ n =>
        rw [more_of_map h, hlength, Nat.add_sub_cancel] at he
        exact List.mem_cons_of_mem _ he
    rw [take_numberRun] at hmem
    exact isQuote_of_mem_numberRun hmem
  | case17 =>
    intro h e he
    obtain rfl := Except.ok.inj h
    rw [← List.prefix_iff_eq_take.1 (List.takeWhile_prefix continuesWord)] at he
    exact isQuote_of_continuesWord (List.mem_takeWhile_imp he)
  | _ =>
    intro h
    cases h <;> simp

/-! ## Tokens -/

end NetQuery.Lexer

namespace NetQuery

/-- A token with the letters of a name made small. -/
def TokenKind.lowered : TokenKind → TokenKind
  | .name word => .name (Text.lower word)
  | kind => kind

/-- A token in its place, with the letters of a name made small. -/
def Token.lowered (t : Token) : Token := ⟨t.kind.lowered, t.position⟩

/-- The tokens of a text, with the letters of names made small. -/
def TokenStream.lowered (stream : TokenStream) : TokenStream :=
  ⟨stream.tokens.map Token.lowered, stream.finish⟩

namespace Lexer

variable {c d : Char} {cs ds : List Char}

theorem ofWord?_congr {w w' : String} (h : Text.lower w = Text.lower w') :
    Keyword.ofWord? w = Keyword.ofWord? w' := by
  simp only [Keyword.ofWord?, Text.agree, h]

/-- A word in another case is the same keyword, or the same name in another case. -/
theorem wordKind_congr {w w' : String} (h : Text.lower w = Text.lower w') :
    (wordKind w).lowered = (wordKind w').lowered := by
  rw [wordKind, wordKind, ofWord?_congr h]
  cases Keyword.ofWord? w' with
  | none => simp [TokenKind.lowered, h]
  | some k => rfl

/-- Signs and numbers hold no letters. -/
theorem lexeme_congr (hquote : isQuote c = false) (hstart : startsWord c = false)
    (h : List.Forall₂ SameLetter cs ds) : lexeme c cs = lexeme c ds := by
  have heq := head?_congr h (x := '=') (by decide)
  have hgt := head?_congr h (x := '>') (by decide)
  have hdigit : cs.head?.any Number.isDigit = ds.head?.any Number.isDigit := by
    cases h with
    | nil => rfl
    | cons hcase _ => exact isDigit_congr hcase
  have hrun := numberRun_congr h
  have hrun' := numberRun_congr (.cons (show SameLetter c c from rfl) h)
  rw [isQuote] at hquote
  simp only [lexeme, hquote, hstart, heq, hgt, hdigit, hrun, hrun', Bool.false_eq_true, if_false]

/-- A token in another case is the same token up to the case of a name, and takes as many
characters. -/
theorem lexeme_recases {l : Lexeme} (h : recases 0 (c :: cs) (d :: ds))
    (hl : lexeme c cs = .ok l) : ∃ kind, lexeme d ds = .ok ⟨kind, l.more⟩ ∧
      kind.lowered = l.kind.lowered ∧ recases 0 (cs.drop l.more) (ds.drop l.more) := by
  cases hquote : isQuote c with
  | true =>
    obtain ⟨rfl, htake, hdrop⟩ := recases_quote hquote h
    have hquote' := hquote
    rw [isQuote] at hquote'
    simp only [lexeme, hquote', if_true] at hl ⊢
    split at hl
    next value n hvalue =>
      cases hl
      rw [literalLength, hvalue] at htake hdrop
      rw [textTail_congr hquote hvalue htake]
      exact ⟨_, rfl, rfl, hdrop⟩
    next => cases hl
  | false =>
    obtain ⟨hcase, htail⟩ := recases_char hquote h
    have hforall := recases_forall htail
    have hdrop := recases_drop (lexeme_no_quote hquote hl) htail
    cases hstart : startsWord c with
    | true =>
      have hstart' : startsWord d := startsWord_congr hcase ▸ hstart
      have hword := forall_takeWhile continuesWord_congr hforall
      rw [lexeme_of_not_sign (not_mem_signs_of_startsWord hstart),
        if_neg (by simp [isDigit_eq_false_of_startsWord hstart]), if_pos hstart] at hl
      rw [lexeme_of_not_sign (not_mem_signs_of_startsWord hstart'),
        if_neg (by simp [isDigit_eq_false_of_startsWord hstart']), if_pos hstart']
      have hlower : Text.lower (String.ofList (d :: ds.takeWhile continuesWord)) =
          Text.lower (String.ofList (c :: cs.takeWhile continuesWord)) := by
        rw [Text.lower, Text.lower, String.toList_ofList, String.toList_ofList,
          map_toLower_eq (.cons hcase hword)]
      obtain rfl := Except.ok.inj hl
      refine ⟨wordKind (String.ofList (d :: ds.takeWhile continuesWord)), ?_, ?_, hdrop⟩
      · rw [hword.length_eq]
      · rw [wordKind_congr hlower]
    | false =>
      have halpha : c.isAlpha = false := by
        by_contra halpha
        simp [startsWord_of_isAlpha (Bool.not_eq_false _ ▸ halpha)] at hstart
      obtain rfl := eq_of_toLower_eq halpha hcase
      rw [lexeme_congr hquote hstart hforall] at hl
      exact ⟨l.kind, hl, rfl, hdrop⟩

/-- The tokens of a text in another case. The induction follows the scan, with what is left of both
texts after the characters that belong to a token already. -/
theorem scan_recases {taken : Nat} {p : Position} {stream : TokenStream}
    (hcases : List.Forall₂ SameLetter cs ds)
    (h : recases 0 (cs.drop taken) (ds.drop taken)) (hs : scan taken p cs = .ok stream) :
    ∃ stream', scan taken p ds = .ok stream' ∧ stream'.lowered = stream.lowered := by
  fun_induction scan taken p cs generalizing ds stream with
  | case1 =>
    cases hcases
    exact ⟨stream, hs, rfl⟩
  | case2 p taken c cs ih =>
    cases hcases with
    | cons hcase hrest =>
      rw [scan, ← after_congr hcase]
      exact ih hrest h hs
  | case3 p c cs hblank ih =>
    cases hcases with
    | cons hcase hrest =>
      rw [scan, if_pos (isBlank_congr hcase ▸ hblank), ← after_congr hcase]
      have hquote : isQuote c = false := isQuote_eq_false_of (by decide) (by decide) hblank
      exact ih hrest (recases_char hquote h).2 hs
  | case4 => cases hs
  | case5 => cases hs
  | case6 p c cs hblank l hl stream' hstream ih =>
    cases hs
    cases hcases with
    | @cons _ d _ ds hcase hrest =>
      obtain ⟨kind, hkind, hlowered, hdrop⟩ := lexeme_recases h hl
      obtain ⟨stream'', hscan, hstreams⟩ := ih hrest hdrop hstream
      refine ⟨⟨⟨kind, p⟩ :: stream''.tokens, stream''.finish⟩, ?_, ?_⟩
      · rw [scan, if_neg (isBlank_congr hcase ▸ hblank), hkind]
        simp only
        rw [← after_congr hcase, hscan]
      · simp only [TokenStream.lowered, TokenStream.mk.injEq] at hstreams ⊢
        simp [Token.lowered, hlowered, hstreams]

end Lexer

/-- A text in another case has the same tokens in the same places, up to the case of names. -/
theorem tokenize_recases {s t : String} {stream : TokenStream}
    (h : Lexer.recases 0 s.toList t.toList) (hs : tokenize s = .ok stream) :
    ∃ stream', tokenize t = .ok stream' ∧ stream'.lowered = stream.lowered :=
  Lexer.scan_recases (Lexer.recases_forall h) h hs

end NetQuery
