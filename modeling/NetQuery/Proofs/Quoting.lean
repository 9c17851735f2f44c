import NetQuery.Proofs.Lexing
import NetQuery.Proofs.Placeholders

/-!
# Quoting

With its values written out, a statement has texts in single quotes in it, and what these texts say
is up to whoever asks. A reader that knows nothing of the statement but the rule of the lexer for
single quotes finds the same texts again: each ends where it was meant to end, and no quote and no
backslash is left over outside. So no text breaks out of its quotes.
-/

namespace NetQuery

/-! ## The reader -/

/-- What is found in a statement. -/
structure Reading where
  /-- The values of the texts in single quotes. -/
  texts : List String
  /-- The characters outside of them. -/
  outside : List Char

/-- A reading with one more text at its front. -/
def Reading.addText (value : String) (r : Reading) : Reading := ⟨value :: r.texts, r.outside⟩

/-- A reading with one more character at its front. -/
def Reading.addChar (c : Char) (r : Reading) : Reading := ⟨r.texts, c :: r.outside⟩

namespace Lexer

/-- The texts of a statement after the characters that an earlier text has taken; none if the end
is inside a text. -/
def readTexts : (taken : Nat) → List Char → Option Reading
  | _, [] => some ⟨[], []⟩
  | taken + 1, _ :: cs => readTexts taken cs
  | 0, c :: cs =>
    if c = '\'' then
      match textTail '\'' cs with
      | none => none
      | some (value, n) => (readTexts n cs).map (Reading.addText (String.ofList value))
    else (readTexts 0 cs).map (Reading.addChar c)

theorem readTexts_eq_drop (taken : Nat) (cs : List Char) :
    readTexts taken cs = readTexts 0 (cs.drop taken) := by
  induction cs generalizing taken with
  | nil => simp [readTexts]
  | cons c cs ih =>
    cases taken with
    | zero => rfl
    | succ taken => rw [readTexts, ih, List.drop_succ_cons]

theorem readTexts_quote (value : String) (rest : List Char) :
    readTexts 0 ((Dialect.quote value).toList ++ rest) =
      (readTexts 0 rest).map (Reading.addText value) := by
  have htext : (Dialect.quote value).toList ++ rest =
      '\'' :: (Dialect.escape value.toList ++ '\'' :: rest) := by
    simp [Dialect.quote]
  have hdrop : (Dialect.escape value.toList ++ '\'' :: rest).drop
      ((Dialect.escape value.toList).length + 1) = rest := by
    simp
  rw [htext, readTexts, if_pos rfl, textTail_escape]
  simp only
  rw [readTexts_eq_drop, hdrop, String.ofList_toList]

end Lexer

/-! ## Bare characters -/

/-- A character that neither opens nor closes a text, nor changes how the next one is read. -/
def isBare (c : Char) : Bool := c ≠ '\'' && c ≠ '"' && c ≠ '\\'

/-- Text in which only bare characters stand. -/
def Bare (s : String) : Prop := ∀ c ∈ s.toList, isBare c

instance (s : String) : Decidable (Bare s) :=
  decidable_of_iff (s.toList.all isBare = true) List.all_eq_true

theorem isBare_of_isPlain {c : Char} (h : isPlain c) : isBare c := by
  have hne : ∀ d, isPlain d = false → c ≠ d := by
    rintro d hd rfl
    rw [h] at hd
    exact absurd hd (by decide)
  have hquote := hne '\'' (by decide +kernel)
  have hdouble := hne '"' (by decide +kernel)
  have hslash := hne '\\' (by decide +kernel)
  simp [isBare, hquote, hdouble, hslash]

/-! ## Numbers -/

/-- A character that a number may be written with. -/
def isNumeral (c : Char) : Bool := Number.isDigit c || "+-.aefinN".toList.contains c

/-- Text in which only such characters stand. -/
def Numeral (s : String) : Prop := ∀ c ∈ s.toList, isNumeral c

instance (s : String) : Decidable (Numeral s) :=
  decidable_of_iff (s.toList.all isNumeral = true) List.all_eq_true

theorem isBare_of_isNumeral {c : Char} (h : isNumeral c) : isBare c := by
  rcases Bool.or_eq_true_iff.1 h with hdigit | hsign
  · exact isBare_of_isPlain (by simp [isPlain, Lexer.continuesWord_of_isDigit hdigit])
  · have hsigns : "+-.aefinN".toList.all isBare := by decide
    exact List.all_eq_true.1 hsigns c (List.contains_iff_mem.1 hsign)

theorem isNumeral_of_mem_toDigits {c : Char} {n : Nat} (h : c ∈ Nat.toDigits 10 n) :
    isNumeral c := by
  have hdigit : Number.isDigit c := Nat.isDigit_of_mem_toDigits (by decide) (by decide) h
  simp [isNumeral, hdigit]

theorem numeral_toString (n : Int) : Numeral (toString n) := by
  intro c hc
  rw [Lexer.toList_toString] at hc
  by_cases hn : n < 0
  · rw [if_pos hn] at hc
    rcases List.mem_cons.1 hc with rfl | hc
    · decide
    · exact isNumeral_of_mem_toDigits hc
  · rw [if_neg hn] at hc
    exact isNumeral_of_mem_toDigits hc

theorem bare_toString (n : Int) : Bare (toString n) :=
  fun c hc => isBare_of_isNumeral (numeral_toString n c hc)

theorem bare_comma : Bare ", " := by decide +kernel

namespace Number.Layout

variable {l : Layout} {digits : List Char} {lead : Int}

theorem isNumeral_full (h : ∀ c ∈ digits, isNumeral c) : ∀ c ∈ l.full digits lead, isNumeral c := by
  have hzero : isNumeral '0' := by decide
  have hpoint : isNumeral '.' := by decide
  have hzeros : ∀ n, ∀ c ∈ List.replicate n '0', isNumeral c := by
    intro n c hc
    rw [List.eq_of_mem_replicate hc]
    exact hzero
  have hend : ∀ c ∈ (if l.point then ['.', '0'] else []), isNumeral c := by
    split
    · simp [hzero, hpoint]
    · simp
  unfold full
  by_cases hlead : lead < 0
  · simp only [if_pos hlead, List.forall_mem_cons, List.forall_mem_append]
    exact ⟨hzero, hpoint, hzeros _, h⟩
  · by_cases hwhole : digits.length ≤ lead.toNat + 1
    · simp only [if_neg hlead, if_pos hwhole, List.forall_mem_append]
      exact ⟨⟨h, hzeros _⟩, hend⟩
    · simp only [if_neg hlead, if_neg hwhole, List.forall_mem_cons, List.forall_mem_append]
      exact ⟨fun c hc => h c (List.mem_of_mem_take hc), hpoint,
        fun c hc => h c (List.mem_of_mem_drop hc)⟩

theorem isNumeral_scientific (h : ∀ c ∈ digits, isNumeral c) :
    ∀ c ∈ l.scientific digits lead, isNumeral c := by
  have hpoint : isNumeral '.' := by decide
  have hplus : isNumeral '+' := by decide
  simp only [scientific, List.forall_mem_cons, List.forall_mem_append]
  refine ⟨?_, by decide, ?_, numeral_toString lead⟩
  · split
    · obtain ⟨hfirst, hrest⟩ := List.forall_mem_cons.1 h
      simp only [List.forall_mem_cons]
      exact ⟨hfirst, hpoint, List.forall_mem_cons.1 hrest⟩
    · exact h
  · split
    · simpa using hplus
    · simp

/-- A number is written in digits, points, signs and letters. -/
theorem numeral_write (l : Layout) (x : Float) : Numeral (l.write x) := by
  have hminus : isNumeral '-' := by decide
  have hsign : ∀ c ∈ (if signBit ≤ x.toBits.toNat then ['-'] else []), isNumeral c := by
    split
    · simpa using hminus
    · simp
  have hdigits : ∀ c ∈ (shortest l.tie (x.toBits.toNat % signBit)).1, isNumeral c :=
    fun c hc => isNumeral_of_mem_toDigits hc
  have hsigned : ∀ cs : List Char, (∀ c ∈ cs, isNumeral c) →
      Numeral (String.ofList ((if signBit ≤ x.toBits.toNat then ['-'] else []) ++ cs)) := by
    intro cs hcs
    rw [Numeral, String.toList_ofList, List.forall_mem_append]
    exact ⟨hsign, hcs⟩
  simp only [write]
  by_cases hnan : infinityBits < x.toBits.toNat % signBit
  · rw [if_pos hnan]
    decide +kernel
  by_cases hinf : x.toBits.toNat % signBit = infinityBits
  · rw [if_neg hnan, if_pos hinf]
    exact hsigned _ (by simp [isNumeral])
  by_cases hnull : x.toBits.toNat % signBit = 0
  · rw [if_neg hnan, if_neg hinf, if_pos hnull]
    have hzero : isNumeral '0' := by decide
    exact hsigned _ (isNumeral_full (by simpa using hzero))
  rw [if_neg hnan, if_neg hinf, if_neg hnull]
  refine hsigned _ ?_
  split
  · exact isNumeral_full hdigits
  · exact isNumeral_scientific hdigits

theorem bare_write (l : Layout) (x : Float) : Bare (l.write x) :=
  fun c hc => isBare_of_isNumeral (numeral_write l x c hc)

end Number.Layout

/-! ## The texts of a statement -/

/-- The texts that a parameter carries. -/
def Param.texts : Param → List String
  | .text value | .timestamptz value => [value]
  | .textArray values => values
  | .bool _ | .int _ | .float _ | .intArray _ => []

/-- A reader finds these texts, and only bare characters outside of them. -/
def Quotes (cs : List Char) (texts : List String) : Prop :=
  ∃ outside, Lexer.readTexts 0 cs = some ⟨texts, outside⟩ ∧ ∀ c ∈ outside, isBare c

namespace Quotes

variable {rest : List Char} {texts : List String}

theorem nil : Quotes [] [] := ⟨[], rfl, by simp⟩

theorem quote (h : Quotes rest texts) (value : String) :
    Quotes ((Dialect.quote value).toList ++ rest) (value :: texts) := by
  obtain ⟨outside, hread, houtside⟩ := h
  refine ⟨outside, ?_, houtside⟩
  rw [Lexer.readTexts_quote, hread]
  rfl

theorem bare (h : Quotes rest texts) {cs : List Char} (hcs : ∀ c ∈ cs, isBare c) :
    Quotes (cs ++ rest) texts := by
  induction cs with
  | nil => exact h
  | cons c cs ih =>
    obtain ⟨outside, hread, houtside⟩ := ih fun d hd => hcs d (List.mem_cons_of_mem _ hd)
    have hc : isBare c := hcs c List.mem_cons_self
    have hne : c ≠ '\'' := by
      rintro rfl
      exact absurd hc (by decide)
    refine ⟨c :: outside, ?_, by simpa [hc] using houtside⟩
    rw [List.cons_append, Lexer.readTexts, if_neg hne, hread]
    rfl

/-- Texts with commas between them are found one by one. -/
theorem join (h : Quotes rest texts) (values : List String) :
    Quotes ((Text.join ", " (values.map Dialect.quote)).toList ++ rest) (values ++ texts) := by
  induction values with
  | nil => simpa [Text.join] using h
  | cons value values ih =>
    by_cases hnil : values = []
    · subst hnil
      exact h.quote value
    · have hcomma := (ih.bare bare_comma).quote value
      rw [List.map_cons, Text.toList_join_cons _ _ (by simpa using hnil), List.append_assoc,
        List.append_assoc]
      exact hcomma

/-- A literal is read as the texts that its value carries. -/
theorem literal (h : Quotes rest texts) {d : Dialect} (hopen : Bare d.listOpen)
    (hclose : Bare d.listClose) (p : Param) :
    Quotes ((d.literal p).toList ++ rest) (p.texts ++ texts) := by
  cases p with
  | text value => exact h.quote value
  | timestamptz value => exact h.quote value
  | bool value =>
    have hword : Bare (if value then "true" else "false") := by cases value <;> decide +kernel
    exact h.bare hword
  | int value => exact h.bare (bare_toString value)
  | float value => exact h.bare (Number.Layout.bare_write _ value)
  | textArray values =>
    have hlist := ((h.bare hclose).join values).bare hopen
    simpa [Dialect.literal, Param.texts] using hlist
  | intArray values =>
    have hitems : Bare (Text.join ", " (values.map toString)) := by
      intro c hc
      rcases Text.mem_join hc with hc | ⟨s, hs, hc⟩
      · exact bare_comma c hc
      · obtain ⟨n, -, rfl⟩ := List.mem_map.1 hs
        exact bare_toString n c hc
    have hlist := ((h.bare hclose).bare hitems).bare hopen
    simpa [Dialect.literal, Param.texts] using hlist

/-- A statement is read as the texts that its values carry. -/
theorem embedded {d : Dialect} (hopen : Bare d.listOpen) (hclose : Bare d.listClose)
    {ps : List Piece} (h : ∀ p ∈ ps, p.IsNeat) :
    Quotes (Piece.embedded d ps).toList ((Piece.params ps).flatMap Param.texts) := by
  induction ps with
  | nil => exact nil
  | cons p ps ih =>
    have hrest := ih fun q hq => h q (List.mem_cons_of_mem _ hq)
    cases p with
    | text s =>
      have hs : Neat s := h (.text s) List.mem_cons_self
      rw [Piece.embedded, String.toList_append]
      exact hrest.bare fun c hc => isBare_of_isPlain (hs.plain c hc)
    | param p =>
      rw [Piece.embedded, String.toList_append]
      exact hrest.literal hopen hclose p

end Quotes

theorem bare_brackets (backend : Backend) :
    Bare backend.dialect.listOpen ∧ Bare backend.dialect.listClose := by
  cases backend <;> decide +kernel

/-- A statement with its values written out is read as the texts that are bound beside the statement
with parameters, in the same order, and no quote and no backslash stands outside of them. -/
theorem Query.readTexts_literal {text : String} {q : Query} (hq : Query.parse text = .ok q)
    (page : Option Page) (backend : Backend) (now : Time.Timestamp) {b : Artifact}
    (hb : Query.compile { q with page := page } backend .literal now = .ok b) :
    ∃ a, Query.compile { q with page := page } backend .parameterized now = .ok a ∧
      ∃ outside, Lexer.readTexts 0 b.statement.toList =
          some ⟨a.params.flatMap Param.texts, outside⟩ ∧
        '\'' ∉ outside ∧ '"' ∉ outside ∧ '\\' ∉ outside := by
  obtain ⟨ps, hps, rfl⟩ := compile_eq_ok_iff.1 hb
  have hneat := (Query.named_of_parse hq page).pieces_isNeat hps
  obtain ⟨hopen, hclose⟩ := bare_brackets backend
  obtain ⟨outside, hread, hbare⟩ := Quotes.embedded hopen hclose hneat
  refine ⟨_, compile_eq_ok_iff.2 ⟨ps, hps, rfl⟩, outside, hread, ?_, ?_, ?_⟩
  all_goals
    intro hmem
    exact absurd (hbare _ hmem) (by decide)

/-- Texts that try to end early, in a comparison and in a list. -/
theorem Query.readTexts_literal_breakout : ∃ q b,
    Query.parse "show logs where a = '\\' OR 1=1 --' and b in ('\\\\', \"y'\\\"\")" = .ok q ∧
    Query.compile { q with page := q.page } .clickHouse .literal (.midnight ⟨2024, 1, 1⟩) = .ok b ∧
    b.statement = "SELECT * FROM logs WHERE a = '\\' OR 1=1 --' AND b IN ('\\\\', 'y\\'\"')" ∧
    ∃ a, Query.compile { q with page := q.page } .clickHouse .parameterized
        (.midnight ⟨2024, 1, 1⟩) = .ok a ∧
      ∃ outside, Lexer.readTexts 0 b.statement.toList =
          some ⟨a.params.flatMap Param.texts, outside⟩ ∧
        '\'' ∉ outside ∧ '"' ∉ outside ∧ '\\' ∉ outside := by
  obtain ⟨q, b, hq, hb, hstatement⟩ := Query.exists_of_statement? (show Query.statement?
    "show logs where a = '\\' OR 1=1 --' and b in ('\\\\', \"y'\\\"\")" .clickHouse .literal
    (.midnight ⟨2024, 1, 1⟩) =
      some "SELECT * FROM logs WHERE a = '\\' OR 1=1 --' AND b IN ('\\\\', 'y\\'\"')"
    by decide +kernel)
  exact ⟨q, b, hq, hb, hstatement, Query.readTexts_literal hq q.page .clickHouse _ hb⟩

end NetQuery
