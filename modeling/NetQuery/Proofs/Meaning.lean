import NetQuery.Proofs.Quoting
import NetQuery.Proofs.Readback
import NetQuery.Proofs.SqlFilter

/-!
# What the filter of a statement means

The filter of a query becomes a text in which the conditions of a chain stand one after the other,
with `AND` and `OR` between them, and only groups are in parentheses. An engine that reads this text
finds the comparisons of the query, in order, and puts them together by precedence. The query
language puts them together from left to right. So the filter means what the query says if and only
if no chain has an `and` after an `or`.
-/

namespace NetQuery

/-! ## Texts in both modes -/

namespace Piece

/-- What is written for a value. -/
def valueText (d : Dialect) (mode : Mode) (number : Nat) (p : Param) : List Char :=
  match mode with
  | .parameterized => (d.placeholder number).toList
  | .literal => (d.literal p).toList

/-- What is written for pieces of which the first value has the given number. -/
def spelled (d : Dialect) (mode : Mode) : (number : Nat) → List Piece → List Char
  | _, [] => []
  | number, .text s :: rest => s.toList ++ spelled d mode number rest
  | number, .param p :: rest => valueText d mode number p ++ spelled d mode (number + 1) rest

variable {d : Dialect} {mode : Mode}

theorem toList_write (ps : List Piece) : (write d mode ps).toList = spelled d mode 1 ps := by
  cases mode with
  | parameterized =>
    rw [write]
    generalize 1 = number
    induction ps generalizing number with
    | nil => rfl
    | cons p ps ih => cases p <;> simp [numbered, spelled, valueText, ih]
  | literal =>
    rw [write]
    generalize 1 = number
    induction ps generalizing number with
    | nil => rfl
    | cons p ps ih =>
      cases p with
      | text s => simp [embedded, spelled, ih number]
      | param p => simp [embedded, spelled, valueText, ih (number + 1)]

theorem spelled_append (number : Nat) (ps qs : List Piece) : spelled d mode number (ps ++ qs) =
    spelled d mode number ps ++ spelled d mode (number + (params ps).length) qs := by
  induction ps generalizing number with
  | nil => rfl
  | cons p ps ih =>
    cases p with
    | text s => simp [spelled, params, ih]
    | param p => simp [spelled, params, ih, Nat.add_assoc, Nat.add_comm 1]

end Piece

namespace Compiler

theorem spelled_template {d : Dialect} (hd : d.IsSql) (mode : Mode) (number : Nat) (op : Operator)
    (field : RenderedField) (operand upper : List Piece) :
    Piece.spelled d mode number (fill (d.template op) field operand upper) =
      op.lead.toList ++ (field.expression.toList ++ (op.sign.toList ++
        Piece.spelled d mode number (fill op.trail field operand upper))) := by
  rcases hd with rfl | rfl <;> cases op <;>
    simp [Dialect.template, Dialect.clickHouse, Dialect.proton, Dialect.sql, fill, Template.fill,
      Operator.lead, Operator.sign, Operator.trail, Piece.spelled]

theorem spelled_linkPieces {d : Dialect} (hd : d.IsSql) (mode : Mode) (number : Nat) (link : Link)
    (ps : List Piece) : Piece.spelled d mode number (linkPieces d link ++ ps) =
      link.word.toList ++ Piece.spelled d mode number ps := by
  rcases hd with rfl | rfl <;> cases link <;>
    simp [linkPieces, Link.word, Dialect.clickHouse, Dialect.proton, Dialect.sql, Piece.spelled]

end Compiler

/-! ## Reading parts of a filter -/

namespace Sql

/-- A text is read as the given tokens, which all have a property and become the given items. -/
structure Reads (P : Token → Prop) (cs : List Char) (ts : List Token) (items : List Item) :
    Prop where
  tokens : tokens 0 cs = some ts
  nests : Nests ts items
  all : ∀ t ∈ ts, P t

namespace Reads

variable {P Q : Token → Prop} {cs ds : List Char} {ts us : List Token} {items more : List Item}

theorem nil : Reads P [] [] [] := ⟨rfl, .nil, by simp⟩

theorem append (h : Reads P cs ts items) (h' : Reads P ds us more) (hseam : Seam cs ds) :
    Reads P (cs ++ ds) (ts ++ us) (items ++ more) where
  tokens := by
    rw [tokens_append h.tokens (Nat.zero_le _) hseam, h'.tokens]
    rfl
  nests := h.nests.append h'.nests
  all := List.forall_mem_append.2 ⟨h.all, h'.all⟩

theorem mono (h : Reads P cs ts items) (hall : ∀ t, P t → Q t) : Reads Q cs ts items :=
  ⟨h.tokens, h.nests, fun t ht => hall t (h.all t ht)⟩

theorem paren (h : Reads P cs ts items) (hopen : P .opening) (hclose : P .closing) :
    Reads P ('(' :: (cs ++ [')'])) (.opening :: (ts ++ [.closing])) [.paren ts (formula items)] where
  tokens := by
    have hend : Sql.tokens 0 [')'] = some [.closing] := rfl
    have hinner : Sql.tokens 0 (cs ++ [')']) = some (ts ++ [.closing]) := by
      rw [tokens_append h.tokens (Nat.zero_le _) (seam_cons (by decide) _ _), hend]
      rfl
    have hstep : Sql.tokens 0 ('(' :: (cs ++ [')'])) =
        (Sql.tokens 0 (cs ++ [')'])).map (.opening :: ·) := rfl
    rw [hstep, hinner]
    rfl
  nests := h.nests.paren
  all := List.forall_mem_cons.2 ⟨hopen,
    List.forall_mem_append.2 ⟨h.all, List.forall_mem_singleton.2 hclose⟩⟩

end Reads

/-! ## Words -/

theorem tokens_length (cs : List Char) : tokens cs.length cs = some [] := by
  induction cs with
  | nil => rfl
  | cons c cs ih => exact ih

theorem reads_word {P : Token → Prop} {w : List Char} (hne : w ≠ [])
    (hw : ∀ c ∈ w, isWordChar c) (hplain : P (.word (String.ofList w))) :
    Reads P w [.word (String.ofList w)] [.token (.word (String.ofList w))] where
  tokens := by
    obtain ⟨c, cs, rfl⟩ := List.exists_cons_of_ne_nil hne
    obtain ⟨hc, hcs⟩ := List.forall_mem_cons.1 hw
    simp only [isWordChar, Bool.and_eq_true, Bool.not_eq_true', decide_eq_true_eq] at hc
    obtain ⟨⟨⟨⟨hblank, hopen⟩, hclose⟩, hcomma⟩, hquote⟩ := hc
    have hmore : cs.takeWhile isWordChar = cs := List.takeWhile_eq_self_iff.2 hcs
    have htoken : tokenAt c cs = some (.word (String.ofList (c :: cs)), cs.length) := by
      unfold tokenAt
      rw [if_neg hopen, if_neg hclose, if_neg hcomma, if_neg hquote, hmore]
    rw [Sql.tokens, hblank, if_neg Bool.false_ne_true, htoken]
    simp only
    rw [tokens_length]
    rfl
  nests := .word _
  all := List.forall_mem_singleton.2 hplain

/-- A text without parentheses. -/
theorem reads_flat {P : Token → Prop} {cs : List Char} {ts : List Token}
    (htokens : tokens 0 cs = some ts) (hflat : ∀ t ∈ ts, t ≠ .opening ∧ t ≠ .closing)
    (hall : ∀ t ∈ ts, P t) : Reads P cs ts (ts.map .token) where
  tokens := htokens
  nests := by
    clear htokens hall
    induction ts with
    | nil => exact .nil
    | cons t ts ih =>
      obtain ⟨ht, hts⟩ := List.forall_mem_cons.1 hflat
      exact (Nests.token ht.1 ht.2).append (ih hts)
  all := hall

theorem reads_quoted {P : Token → Prop} {value : String} (hplain : P (.quoted value)) :
    Reads P (Dialect.quote value).toList [.quoted value] [.token (.quoted value)] where
  tokens := by
    have htext : (Dialect.quote value).toList =
        '\'' :: (Dialect.escape value.toList ++ ['\'']) := by simp [Dialect.quote]
    have htoken : tokenAt '\'' (Dialect.escape value.toList ++ ['\'']) =
        some (.quoted value, (Dialect.escape value.toList ++ ['\'']).length) := by
      simp [tokenAt, Lexer.textTail_escape]
    have hblank : Text.isBlank '\'' = false := by decide
    rw [htext, Sql.tokens, hblank, if_neg Bool.false_ne_true, htoken]
    simp only
    rw [tokens_length]
    rfl
  nests := .token nofun nofun
  all := List.forall_mem_singleton.2 hplain

theorem isWordChar_of_continuesWord {c : Char} (h : Lexer.continuesWord c) : isWordChar c := by
  have hne : ∀ d, Lexer.continuesWord d = false → c ≠ d := by
    rintro d hd rfl
    rw [h] at hd
    cases hd
  exact isWordChar_of_ne (Lexer.isBlank_eq_false_of_continuesWord h) (hne _ (by decide))
    (hne _ (by decide)) (hne _ (by decide)) (hne _ (by decide))

theorem isWordChar_of_isNumeral {c : Char} (h : isNumeral c) : isWordChar c := by
  rcases Bool.or_eq_true_iff.1 h with hdigit | hsign
  · exact isWordChar_of_continuesWord (Lexer.continuesWord_of_isDigit hdigit)
  · have hsigns : "+-.aefinN".toList.all isWordChar := by decide
    exact List.all_eq_true.1 hsigns c (List.contains_iff_mem.1 hsign)

/-- A name is no keyword, in any case. -/
theorem isPlain_name {w : String} (h : Keyword.ofWord? w = none) :
    (Token.word (Text.lower w)).IsPlain := by
  intro k _
  have hk : k ∈ Keyword.all := by cases k <;> decide
  have hne := List.find?_eq_none.1 h k hk
  rw [Token.spells, Text.agree, Lexer.lower_lower]
  simpa [Text.agree] using hne

/-- The letters are chosen so that each of the dividers has one of them. -/
theorem toLower_not_mem {c : Char} (h : isNumeral c ∨ c = '$') :
    c.toLower ∉ ['b', 'd', 'l', 'o'] := by
  intro hmem
  rcases h with hnumeral | rfl
  · rcases Bool.or_eq_true_iff.1 hnumeral with hdigit | hsign
    · have hletters : ['b', 'd', 'l', 'o'].all fun x => x.toLower = x && !Number.isDigit x := by
        decide
      have hletter := List.all_eq_true.1 hletters _ hmem
      rw [Bool.and_eq_true, decide_eq_true_eq] at hletter
      rw [← Lexer.isDigit_congr hletter.1.symm, hdigit] at hletter
      cases hletter.2
    · have hsigns : "+-.aefinN".toList.all fun x => x.toLower ∉ ['b', 'd', 'l', 'o'] := by decide
      have hnot := List.all_eq_true.1 hsigns c (List.contains_iff_mem.1 hsign)
      exact absurd hmem (of_decide_eq_true hnot)
  · exact absurd hmem (by decide)

theorem isPlain_numeral {w : List Char} (h : ∀ c ∈ w, isNumeral c ∨ c = '$') :
    (Token.word (String.ofList w)).IsPlain := by
  have hletter : dividers.all fun k =>
      (k.text.toList.map Char.toLower).any (· ∈ ['b', 'd', 'l', 'o']) := by decide +kernel
  intro k hk
  by_contra hspells
  have hagree : k.text.toList.map Char.toLower = w.map Char.toLower := by
    have htexts : Text.lower k.text = Text.lower (String.ofList w) := by
      simpa [Token.spells, Text.agree] using hspells
    simpa [Lexer.toList_lower] using congrArg String.toList htexts
  obtain ⟨x, hx, hmem⟩ := List.any_eq_true.1 (List.all_eq_true.1 hletter k hk)
  rw [hagree] at hx
  obtain ⟨c, hc, rfl⟩ := List.mem_map.1 hx
  exact toLower_not_mem (h c hc) (of_decide_eq_true hmem)

/-! ## Expressions and values -/

/-- A text that neither divides a filter nor ends it. -/
def Inert (cs : List Char) : Prop := ∃ ts items, Reads Token.IsPlain cs ts items

/-- Such a text that starts with a word. -/
def InertWord (cs : List Char) : Prop :=
  ∃ word ts items, Reads Token.IsPlain cs (.word word :: ts) items

theorem InertWord.inert {cs : List Char} (h : InertWord cs) : Inert cs := by
  obtain ⟨word, ts, items, h⟩ := h
  exact ⟨_, _, h⟩

theorem Inert.append {cs ds : List Char} (h : Inert cs) (h' : Inert ds) (hseam : Seam cs ds) :
    Inert (cs ++ ds) := by
  obtain ⟨ts, items, h⟩ := h
  obtain ⟨us, more, h'⟩ := h'
  exact ⟨_, _, h.append h' hseam⟩

theorem InertWord.append {cs ds : List Char} (h : InertWord cs) (h' : Inert ds)
    (hseam : Seam cs ds) : InertWord (cs ++ ds) := by
  obtain ⟨word, ts, items, h⟩ := h
  obtain ⟨us, more, h'⟩ := h'
  exact ⟨word, ts ++ us, _, h.append h' hseam⟩

theorem Inert.paren {cs : List Char} (h : Inert cs) : Inert ('(' :: (cs ++ [')'])) := by
  obtain ⟨ts, items, h⟩ := h
  exact ⟨_, _, h.paren (fun _ _ => rfl) (fun _ _ => rfl)⟩

/-- A text that starts and ends outside of words. -/
def isGap (cs : List Char) : Bool :=
  cs.head?.any (!isWordChar ·) && cs.getLast?.any (!isWordChar ·)

theorem head_gap {gap : List Char} (h : isGap gap) (rest : List Char) :
    ∀ d ∈ (gap ++ rest).head?, isWordChar d = false := by
  obtain ⟨hhead, -⟩ := Bool.and_eq_true_iff.1 h
  cases gap with
  | nil => cases hhead
  | cons c gap => simpa using hhead

theorem seam_before_gap {gap : List Char} (h : isGap gap) (cs rest : List Char) :
    Seam cs (gap ++ rest) := seam_of_head (head_gap h rest) cs

theorem seam_after_gap {gap : List Char} (h : isGap gap) (rest : List Char) : Seam gap rest := by
  obtain ⟨-, hlast⟩ := Bool.and_eq_true_iff.1 h
  intro c hc d _
  rw [Option.mem_def.1 hc] at hlast
  exact Or.inl (by simpa using hlast)

/-- A text without parentheses that neither divides a filter nor ends it. -/
def isFlat (cs : List Char) : Bool :=
  (tokens 0 cs).any (·.all fun t => t ≠ .opening && t ≠ .closing && decide t.IsPlain)

theorem inert_of_isFlat {cs : List Char} (h : isFlat cs) : Inert cs := by
  obtain ⟨ts, htokens, hts⟩ := (Option.any_eq_true _ _).1 h
  have hall : ∀ t ∈ ts, (t ≠ .opening ∧ t ≠ .closing) ∧ t.IsPlain := by simpa using hts
  exact ⟨_, _, reads_flat htokens (fun t ht => (hall t ht).1) (fun t ht => (hall t ht).2)⟩

theorem Inert.join {ss : List String} (h : ∀ s ∈ ss, Inert s.toList) :
    Inert (Text.join ", " ss).toList := by
  have hgap : isGap ", ".toList := by decide
  induction ss with
  | nil => exact ⟨[], [], .nil⟩
  | cons s ss ih =>
    obtain ⟨hs, hss⟩ := List.forall_mem_cons.1 h
    cases ss with
    | nil => exact hs
    | cons t ss =>
      rw [Text.join, String.toList_append, String.toList_append, List.append_assoc]
      exact hs.append ((inert_of_isFlat (by decide)).append (ih hss) (seam_after_gap hgap _))
        (seam_before_gap hgap _ _)

theorem inertWord_text {s : String} (hne : s.toList ≠ []) (hs : ∀ c ∈ s.toList, isWordChar c)
    (hplain : (Token.word s).IsPlain) : InertWord s.toList := by
  have hword : (Token.word (String.ofList s.toList)).IsPlain := by rwa [String.ofList_toList]
  exact ⟨_, _, _, reads_word hne hs hword⟩

theorem inertWord_name {name : String} (h : Lexer.IsName name) :
    InertWord (Text.lower name).toList := by
  refine inertWord_text ?_ (fun c hc => isWordChar_of_continuesWord (h.word_lower c hc))
    (isPlain_name h.noKeyword)
  simpa [Lexer.toList_lower] using h.ne_nil

/-- An expression starts with a word and divides nothing. -/
theorem inertWord_spelled {d : Dialect} (hd : d.IsSql) {f : String} {e : List Char}
    (h : Compiler.Spelled d f e) : InertWord e := by
  cases h with
  | column hname => exact inertWord_name hname
  | @call name word args _ _ hargs hword =>
    have hmem := (hd.function_word hword).1
    obtain ⟨hall, -, hne⟩ := Dialect.IsSql.word_of_mem hmem
    have hplain : ["toDate", "to_date", "lower", "upper"].all fun w =>
        decide (Token.word w).IsPlain := by decide +kernel
    have hfunction : InertWord word.toList :=
      inertWord_text hne (fun c hc => isWordChar_of_continuesWord (hall c hc))
        (of_decide_eq_true (List.all_eq_true.1 hplain word hmem))
    have hlist : Inert (Text.join ", " (args.map Text.lower)).toList :=
      .join (List.forall_mem_map.2 fun arg harg => (inertWord_name (hargs arg harg)).inert)
    exact hfunction.append hlist.paren (seam_cons (by decide) _ _)

theorem inert_numeral {cs : List Char} (h : ∀ c ∈ cs, isNumeral c) : Inert cs := by
  by_cases hne : cs = []
  · rw [hne]
    exact ⟨[], [], .nil⟩
  · exact ⟨_, _, reads_word hne (fun c hc => isWordChar_of_isNumeral (h c hc))
      (isPlain_numeral fun c hc => Or.inl (h c hc))⟩

theorem inert_quoted (value : String) : Inert (Dialect.quote value).toList :=
  ⟨_, _, reads_quoted fun _ _ => rfl⟩

theorem inert_literal {d : Dialect} (hd : d.IsSql) (p : Param) : Inert (d.literal p).toList := by
  have hlist : d.listOpen = "(" ∧ d.listClose = ")" := by
    rcases hd with rfl | rfl <;> exact ⟨rfl, rfl⟩
  cases p with
  | text value => exact inert_quoted value
  | timestamptz value => exact inert_quoted value
  | bool value =>
    have hbool : d.literal (.bool value) = if value then "true" else "false" := by
      cases value <;> rfl
    rw [hbool]
    cases value <;> exact inert_of_isFlat (by decide +kernel)
  | int value => exact inert_numeral (numeral_toString value)
  | float value => exact inert_numeral (Number.Layout.numeral_write _ value)
  | textArray values =>
    have hitems : Inert (Text.join ", " (values.map Dialect.quote)).toList :=
      .join (List.forall_mem_map.2 fun value _ => inert_quoted value)
    simpa [Dialect.literal, hlist] using hitems.paren
  | intArray values =>
    have hitems : Inert (Text.join ", " (values.map toString)).toList :=
      .join (List.forall_mem_map.2 fun value _ => inert_numeral (numeral_toString value))
    simpa [Dialect.literal, hlist] using hitems.paren

theorem inert_placeholder {d : Dialect} (hd : d.IsSql) (number : Nat) :
    Inert (d.placeholder number).toList := by
  have hdigits : ∀ c ∈ Nat.toDigits 10 number, isNumeral c := fun c hc =>
    isNumeral_of_mem_toDigits hc
  rw [hd.placeholder]
  refine ⟨_, _, reads_word (by simp) (List.forall_mem_cons.2 ⟨by decide, fun c hc =>
    isWordChar_of_isNumeral (hdigits c hc)⟩) (isPlain_numeral ?_)⟩
  exact List.forall_mem_cons.2 ⟨Or.inr rfl, fun c hc => Or.inl (hdigits c hc)⟩

theorem inert_value {d : Dialect} (hd : d.IsSql) (mode : Mode) (number : Nat) (p : Param) :
    Inert (Piece.spelled d mode number [.param p]) := by
  have hvalue : Inert (Piece.valueText d mode number p) := by
    cases mode with
    | parameterized => exact inert_placeholder hd number
    | literal => exact inert_literal hd p
  simpa [Piece.spelled] using hvalue

theorem inert_dateKeyword (k : DateKeyword) : Inert k.word.toList := by
  have hcall : ∀ w : List Char, isFlat w → Inert (w ++ '(' :: ([] ++ [')'])) := fun w hw =>
    (inert_of_isFlat hw).append (Inert.paren ⟨[], [], .nil⟩) (seam_cons (by decide) _ _)
  cases k with
  | today => exact hcall "today".toList (by decide +kernel)
  | yesterday => exact hcall "yesterday".toList (by decide +kernel)

theorem InertWord.around {e sign o : List Char} (he : InertWord e) (hgap : isGap sign)
    (hflat : isFlat sign) (ho : Inert o) : InertWord (e ++ (sign ++ o)) :=
  he.append ((inert_of_isFlat hflat).append ho (seam_after_gap hgap _)) (seam_before_gap hgap _ _)

/-! ## Comparisons -/

/-- A token that does not end a filter. -/
def Token.InFilter (t : Token) : Prop := t.spells .order = false ∧ t.spells .limit = false

instance (t : Token) : Decidable t.InFilter := inferInstanceAs (Decidable (_ ∧ _))

theorem Token.IsPlain.inFilter {t : Token} (h : t.IsPlain) : t.InFilter :=
  ⟨h .order (by decide), h .limit (by decide)⟩

/-- A text that is read as one comparison. -/
def ReadsAtom (cs : List Char) (ts : List Token) : Prop :=
  ∃ items, Reads Token.InFilter cs ts items ∧ IsOperand items (.atom ts)

theorem InertWord.readsAtom {cs : List Char} (h : InertWord cs) : ∃ ts, ReadsAtom cs ts := by
  obtain ⟨word, ts, items, h⟩ := h
  exact ⟨_, items, h.mono fun _ => Token.IsPlain.inFilter, isOperand_of_plain h.nests h.all rfl⟩

theorem readsAtom_between {e low high : List Char} (he : InertWord e) (hlow : Inert low)
    (hhigh : Inert high) :
    ∃ ts, ReadsAtom (e ++ (" BETWEEN ".toList ++ (low ++ (" AND ".toList ++ high)))) ts := by
  obtain ⟨word, ts, items, he⟩ := he
  obtain ⟨us, more, hlow⟩ := hlow
  obtain ⟨vs, last, hhigh⟩ := hhigh
  have hbetween : isGap " BETWEEN ".toList := by decide
  have hand : isGap " AND ".toList := by decide
  have hword : Reads Token.InFilter " BETWEEN ".toList [.word "BETWEEN"] _ :=
    reads_flat (by decide +kernel) (by decide) (by decide +kernel)
  have hword' : Reads Token.InFilter " AND ".toList [.word "AND"] _ :=
    reads_flat (by decide +kernel) (by decide) (by decide +kernel)
  have hinFilter := fun t => Token.IsPlain.inFilter (t := t)
  refine ⟨_, _, (he.mono hinFilter).append (hword.append ((hlow.mono hinFilter).append
    (hword'.append (hhigh.mono hinFilter) (seam_after_gap hand _)) (seam_before_gap hand _ _))
    (seam_after_gap hbetween _)) (seam_before_gap hbetween _ _), ?_⟩
  exact isOperand_between he.nests hlow.nests hhigh.nests he.all hlow.all hhigh.all rfl

end Sql

namespace Compiler

variable {ctx : Context} {field : RenderedField}

theorem Scalar.inert (hd : ctx.dialect.IsSql) (hpart : field.datePart = false) {v : Value}
    {ps : List Piece} (h : Scalar ctx field v ps) (mode : Mode) (number : Nat) :
    Sql.Inert (Piece.spelled ctx.dialect mode number ps) := by
  rcases h.sql_cases hd hpart with ⟨k, -, rfl⟩ | ⟨-, param, rfl⟩
  · simpa [Piece.spelled] using Sql.inert_dateKeyword k
  · exact Sql.inert_value hd mode number param

/-- A search is a call that is compared with zero. -/
theorem inertWord_position {e operand : List Char} (he : Sql.InertWord e)
    (hoperand : Sql.Inert operand) : Sql.InertWord
      ("position(".toList ++ (e ++ (", ".toList ++ (operand ++ ") > 0".toList)))) := by
  have hword : Sql.InertWord "position".toList :=
    Sql.inertWord_text (by decide) (List.all_eq_true.1 (by decide)) (by decide +kernel)
  have hinner : Sql.InertWord (e ++ (", ".toList ++ operand)) :=
    he.around (by decide) (by decide) hoperand
  have hzero : Sql.Inert " > 0".toList := Sql.inert_of_isFlat (by decide +kernel)
  have hcall := hword.append hinner.inert.paren (Sql.seam_cons (by decide) _ _)
  simpa using hcall.append hzero (Sql.seam_cons (by decide) _ _)

/-- A comparison is read as one. -/
theorem comparison_reads (hd : ctx.dialect.IsSql) {c : Comparison} (hc : c.Formed)
    {ps : List Piece} (h : comparison ctx c = .ok ps) (mode : Mode) (number : Nat) :
    ∃ ts, Sql.ReadsAtom (Piece.spelled ctx.dialect mode number ps) ts := by
  obtain ⟨field, operand, upper, hfield, -, hoperands, rfl⟩ := comparison_cases h
  obtain ⟨hspelled, hpart⟩ := (renderField_cases hc.field hfield).spelled hd
  have he := Sql.inertWord_spelled hd hspelled
  rw [spelled_template hd]
  generalize c.operator = op at hoperands ⊢
  generalize c.value = v at hoperands
  -- What stands between the field and one operand.
  have hone : ∀ {op : Operator}, op.lead = "" → op.trail = [.operand] →
      Sql.isGap op.sign.toList → Sql.isFlat op.sign.toList →
      Sql.Inert (Piece.spelled ctx.dialect mode number operand) →
      ∃ ts, Sql.ReadsAtom (op.lead.toList ++ (field.expression.toList ++ (op.sign.toList ++
        Piece.spelled ctx.dialect mode number (fill op.trail field operand upper)))) ts := by
    intro op hlead htrail hgap hflat hoperand
    rw [hlead, htrail]
    simpa [fill, Template.fill] using (he.around hgap hflat hoperand).readsAtom
  cases hoperands with
  | isNull =>
    have hwords : Sql.Inert " IS NULL".toList := Sql.inert_of_isFlat (by decide +kernel)
    exact (he.append hwords (Sql.seam_cons (by decide) _ _)).readsAtom
  | isNotNull =>
    have hwords : Sql.Inert " IS NOT NULL".toList := Sql.inert_of_isFlat (by decide +kernel)
    exact (he.append hwords (Sql.seam_cons (by decide) _ _)).readsAtom
  | compare comparator hscalar =>
    exact hone rfl rfl (by cases comparator <;> decide +kernel)
      (by cases comparator <;> decide +kernel) (hscalar.inert hd hpart mode number)
  | like hscalar =>
    exact hone rfl rfl (by decide +kernel) (by decide +kernel) (hscalar.inert hd hpart mode number)
  | contains hscalar =>
    have hread := inertWord_position he (hscalar.inert hd hpart mode number)
    simpa [fill, Template.fill, Operator.lead, Operator.sign, Operator.trail, Piece.spelled,
      Piece.spelled_append] using hread.readsAtom
  | isIn => exact hone rfl rfl (by decide +kernel) (by decide +kernel) (Sql.inert_value hd _ _ _)
  | between hlow hhigh =>
    have hread := Sql.readsAtom_between he (hlow.inert hd hpart mode number)
      (hhigh.inert hd hpart mode (number + (Piece.params operand).length))
    simpa [fill, Template.fill, Operator.lead, Operator.sign, Operator.trail, Piece.spelled,
      Piece.spelled_append] using hread

/-! ## Chains -/

/-- The tokens of what is written for a comparison. -/
def Written (ctx : Context) (mode : Mode) (c : Comparison) (ts : List Sql.Token) : Prop :=
  ∃ ps number, comparison ctx c = .ok ps ∧
    Sql.tokens 0 (Piece.spelled ctx.dialect mode number ps) = some ts

/-- A text that is read as one operand, with the meaning of a condition. -/
def ReadsOperand (ctx : Context) (mode : Mode) (c : Condition) (text : List Char) : Prop :=
  ∃ ts items f, Sql.Reads Sql.Token.InFilter text ts items ∧ Sql.IsOperand items f ∧
    Sql.Means (Written ctx mode) c f

/-- A text that is read as the later operands of a chain. -/
def ReadsLater (ctx : Context) (mode : Mode) (cs : List Condition) (text : List Char) : Prop :=
  ∃ ts items rest, Sql.Reads Sql.Token.InFilter text ts items ∧ Sql.Later items rest ∧
    List.Forall₂ (Sql.LaterMeans (Written ctx mode)) cs rest ∧
    ∀ d ∈ text.head?, Sql.isWordChar d = false

/-- A text that is read as a filter, with the meaning of a chain. -/
def ReadsFilter (ctx : Context) (mode : Mode) (cs : List Condition) (text : List Char) : Prop :=
  ∃ ts items, Sql.Reads Sql.Token.InFilter text ts items ∧
    (∀ truth number,
      (Sql.formula items).eval truth number = Rule.precedence.eval truth number cs) ∧
    List.Forall₂ (Written ctx mode) (comparisonsOf cs) (Sql.formula items).atoms

theorem reads_link {link : Link} (hlink : link ≠ .first) :
    ∃ word, Sql.Reads Sql.Token.InFilter link.word.toList [.word word] [.token (.word word)] ∧
      Sql.isGap link.word.toList ∧ ∀ {items more f rest}, Sql.IsOperand items f →
        Sql.Later more rest →
        Sql.Later (.token (.word word) :: (items ++ more)) ((link, f) :: rest) := by
  cases link with
  | first => exact absurd rfl hlink
  | and =>
    exact ⟨"AND", Sql.reads_flat (by decide +kernel) (by decide) (by decide +kernel), by decide,
      .and⟩
  | or =>
    exact ⟨"OR", Sql.reads_flat (by decide +kernel) (by decide) (by decide +kernel), by decide,
      .or⟩

theorem ReadsOperand.group {members : List Condition} {text : List Char} {mode : Mode}
    (link : Link) (h : ReadsFilter ctx mode members text) :
    ReadsOperand ctx mode (.group link members) ('(' :: (text ++ [')'])) := by
  obtain ⟨ts, items, hread, heval, hatoms⟩ := h
  refine ⟨_, _, Sql.formula items, hread.paren (by decide) (by decide), Sql.isOperand_paren _ _,
    heval, ?_⟩
  rwa [Condition.comparisons]

theorem ReadsLater.cons {c : Condition} {cs : List Condition} {body text : List Char} {mode : Mode}
    (hlink : c.link ≠ .first) (h : ReadsOperand ctx mode c body)
    (hmore : ReadsLater ctx mode cs text) :
    ReadsLater ctx mode (c :: cs) (c.link.word.toList ++ (body ++ text)) := by
  obtain ⟨ts, items, f, hread, hoperand, hmeans⟩ := h
  obtain ⟨us, more, rest, hread', hlater, hall, hhead⟩ := hmore
  obtain ⟨word, hword, hgap, hjoin⟩ := reads_link hlink
  have hreads := hword.append (hread.append hread' (Sql.seam_of_head hhead _))
    (Sql.seam_after_gap hgap _)
  exact ⟨_, .token (.word word) :: (items ++ more), _, hreads, hjoin hoperand hlater,
    .cons ⟨rfl, hlink, hmeans⟩ hall, Sql.head_gap hgap _⟩

theorem ReadsFilter.cons {c : Condition} {cs : List Condition} {body text : List Char}
    {mode : Mode} (hlink : c.link = .first) (h : ReadsOperand ctx mode c body)
    (hmore : ReadsLater ctx mode cs text) : ReadsFilter ctx mode (c :: cs) (body ++ text) := by
  obtain ⟨ts, items, f, hread, hoperand, hmeans⟩ := h
  obtain ⟨us, more, rest, hread', hlater, hall, hhead⟩ := hmore
  exact ⟨_, _, hread.append hread' (Sql.seam_of_head hhead _),
    Sql.formula_means hoperand hlater hlink hmeans hall⟩

mutual

theorem condition_reads (hd : ctx.dialect.IsSql) (mode : Mode) {c : Condition} {link : Link}
    (hc : c.Formed link) {ps : List Piece} (h : condition ctx c = .ok ps) (number : Nat) :
    ∃ body, Piece.spelled ctx.dialect mode number ps = link.word.toList ++ body ∧
      ReadsOperand ctx mode c body := by
  cases c with
  | compare link c =>
    cases hc with
    | compare hc =>
      obtain ⟨qs, hqs, rfl⟩ := condition_compare_eq_ok_iff.1 h
      obtain ⟨ts, items, hread, hoperand⟩ := comparison_reads hd hc hqs mode number
      refine ⟨_, spelled_linkPieces hd mode number link qs, ts, items, _, hread, hoperand,
        fun _ _ => rfl, ?_⟩
      exact .cons ⟨qs, number, hqs, hread.tokens⟩ .nil
  | group link members =>
    cases hc with
    | group hmembers =>
      -- Parentheses keep the chain of a group apart, whatever its links are.
      obtain ⟨qs, hqs, rfl⟩ := condition_group_eq_ok_iff.1 h
      have hread := chain_reads hd mode hmembers hqs number
      refine ⟨_, spelled_linkPieces hd mode number link _, ?_⟩
      simpa [Piece.spelled, Piece.spelled_append] using ReadsOperand.group link hread

theorem later_reads (hd : ctx.dialect.IsSql) (mode : Mode) {cs : List Condition}
    (hcs : Follow cs) {ps : List Piece} (h : chain ctx cs = .ok ps) (number : Nat) :
    ReadsLater ctx mode cs (Piece.spelled ctx.dialect mode number ps) := by
  cases cs with
  | nil =>
    cases h
    exact ⟨[], [], [], .nil, .nil, .nil, nofun⟩
  | cons c cs =>
    obtain ⟨qs, rs, hqs, hrs, rfl⟩ := chain_cons_eq_ok_iff.1 h
    obtain ⟨hlink, hc⟩ := hcs c List.mem_cons_self
    obtain ⟨body, hbody, hread⟩ := condition_reads hd mode hc hqs number
    have hmore := later_reads hd mode (fun d hd => hcs d (List.mem_cons_of_mem _ hd)) hrs
      (number + (Piece.params qs).length)
    rw [Piece.spelled_append, hbody, List.append_assoc]
    exact .cons hlink hread hmore

theorem chain_reads (hd : ctx.dialect.IsSql) (mode : Mode) {cs : List Condition}
    (hcs : ChainFormed .first cs) {ps : List Piece} (h : chain ctx cs = .ok ps) (number : Nat) :
    ReadsFilter ctx mode cs (Piece.spelled ctx.dialect mode number ps) := by
  cases cs with
  | nil => cases hcs
  | cons c cs =>
    obtain ⟨hc, hfollow⟩ := chainFormed_cons_iff.1 hcs
    obtain ⟨qs, rs, hqs, hrs, rfl⟩ := chain_cons_eq_ok_iff.1 h
    obtain ⟨body, hbody, hread⟩ := condition_reads hd mode hc hqs number
    have hmore := later_reads hd mode hfollow hrs (number + (Piece.params qs).length)
    rw [Piece.spelled_append, hbody]
    exact .cons hc.link_eq hread hmore

end

end Compiler

/-! ## Statements -/

namespace Sql

theorem exists_tokens {cs : List Char} (h : '\'' ∉ cs) (taken : Nat) :
    ∃ ts, tokens taken cs = some ts := by
  induction cs generalizing taken with
  | nil => exact ⟨[], by cases taken <;> rfl⟩
  | cons c cs ih =>
    obtain ⟨hc, hcs⟩ := not_or.1 (List.mem_cons.not.1 h)
    cases taken with
    | succ taken => exact ih hcs taken
    | zero =>
      rw [tokens]
      cases Text.isBlank c with
      | true => exact ih hcs 0
      | false =>
        have htoken : ∃ token n, tokenAt c cs = some (token, n) := by
          unfold tokenAt
          rw [if_neg (Ne.symm hc)]
          split_ifs <;> exact ⟨_, _, rfl⟩
        obtain ⟨token, n, htoken⟩ := htoken
        obtain ⟨ts, hts⟩ := ih hcs n
        exact ⟨token :: ts, by simp [htoken, hts]⟩

/-- What stands after a filter is read, and its first token ends the filter. -/
def Closes (text : List Char) : Prop :=
  (∀ d ∈ text.head?, isWordChar d = false) ∧ ∃ ts, tokens 0 text = some ts ∧
    ∀ t ∈ ts.head?, ¬ t.InFilter

theorem closes_gap {gap text : List Char} {ts : List Token} (hgap : isGap gap)
    (htokens : tokens 0 gap = some ts) (hends : ∃ t ∈ ts.head?, ¬ t.InFilter)
    (htext : '\'' ∉ text) : Closes (gap ++ text) := by
  obtain ⟨us, hus⟩ := exists_tokens htext 0
  refine ⟨head_gap hgap text, ts ++ us, ?_, ?_⟩
  · rw [tokens_append htokens (Nat.zero_le _) (seam_after_gap hgap _), hus]
    rfl
  · obtain ⟨t, ht, hends⟩ := hends
    intro u hu
    rw [List.head?_append, Option.mem_def.1 ht] at hu
    cases hu
    exact hends

/-- The filter of a text is what stands between the first `WHERE` and the next clause. -/
theorem filter?_eq {head body after : List Char} {text : String} {pre ts : List Token}
    {items : List Item} (htext : text.toList = head ++ (" WHERE ".toList ++ (body ++ after)))
    (hhead : tokens 0 head = some pre) (hpre : ∀ t ∈ pre, t.spells .where = false)
    (hbody : Reads Token.InFilter body ts items) (hafter : Closes after) :
    filter? text = some (formula items) := by
  obtain ⟨hseam, us, hus, hends⟩ := hafter
  -- The four parts are read one after the other, since no word goes on from one into the next.
  have hgap : isGap " WHERE ".toList := by decide
  have hwhere : tokens 0 " WHERE ".toList = some [.word "WHERE"] := by decide +kernel
  have htokens : tokens 0 text.toList = some (pre ++ (.word "WHERE" :: (ts ++ us))) := by
    rw [htext, tokens_append hhead (Nat.zero_le _) (seam_before_gap hgap _ _),
      tokens_append hwhere (Nat.zero_le _) (seam_after_gap hgap _),
      tokens_append hbody.tokens (Nat.zero_le _) (seam_of_head hseam _), hus]
    rfl
  have hfilter : filterTokens (pre ++ (.word "WHERE" :: (ts ++ us))) = some ts := by
    have hspells : (Token.word "WHERE").spells .where := by decide +kernel
    have hkeep : ∀ t ∈ ts, !(t.spells .order || t.spells .limit) := by
      intro t ht
      obtain ⟨horder, hlimit⟩ := hbody.all t ht
      simp [horder, hlimit]
    have hend : us.takeWhile (fun t => !(t.spells .order || t.spells .limit)) = [] := by
      cases us with
      | nil => rfl
      | cons u us =>
        have hu := hends u rfl
        simpa [Token.InFilter] using hu
    rw [filterTokens, List.dropWhile_append_of_pos (by simpa using hpre),
      List.dropWhile_cons_of_neg (by simp [hspells])]
    simp only
    rw [List.takeWhile_append_of_pos hkeep, hend, List.append_nil]
  simp [filter?, htokens, hfilter, hbody.nests.nest_nil]

end Sql

namespace Clauses

variable {d : Dialect}

/-- What follows the filter in pieces is nothing, or it is text that starts with the next clause. -/
theorem statement_sql (hd : d.IsSql) (kind : QueryKind) (source : String) (filter : List Piece)
    (keys : List String) {limit : Option Nat} {offset : Nat} (hoffset : limit = none → offset = 0) :
    ∃ after, Clauses.statement ⟨kind, source, some filter, keys, limit, offset⟩ d.shape =
      .text ("SELECT " ++ projection kind ++ " FROM " ++ source) :: .text " WHERE " ::
        (filter ++ after) ∧
      (after = [] ∨ ∃ word ∈ [" ORDER BY ", " LIMIT "], ∃ t rest,
        after = .text (word ++ t) :: rest) ∧ ∀ p ∈ after, ∃ s, p = .text s := by
  have hshape : d.shape = .sql "COUNT(*)" := by
    rcases hd with rfl | rfl <;> rfl
  rw [hshape, Clauses.statement, Clauses.sql]
  simp only [List.append_assoc, List.cons_append]
  refine ⟨_, rfl, ?_, ?_⟩
  · cases keys with
    | cons key keys => exact Or.inr ⟨_, by simp, _, _, rfl⟩
    | nil =>
      cases limit with
      | some limit => exact Or.inr ⟨_, by simp, _, _, rfl⟩
      | none => exact Or.inl (by simp [hoffset rfl])
  · cases keys <;> cases limit <;> split_ifs <;> simp_all

/-- The text before the filter has no `WHERE`. -/
theorem tokens_head (hd : d.IsSql) (kind : QueryKind) {e : Entity} {source : String}
    (hsource : d.source e = some source) :
    ∃ ts, Sql.tokens 0 ("SELECT " ++ projection kind ++ " FROM " ++ source).toList = some ts ∧
      ∀ t ∈ ts, t.spells .where = false := by
  have hselect : ∃ ts, Sql.tokens 0 ("SELECT " ++ projection kind ++ " FROM ").toList = some ts ∧
      ∀ t ∈ ts, t.spells .where = false := by
    cases kind with
    | records => exact ⟨[.word "SELECT", .word "*", .word "FROM"], by decide +kernel⟩
    | count =>
      exact ⟨[.word "SELECT", .word "COUNT", .opening, .word "*", .closing, .word "FROM"],
        by decide +kernel⟩
  have hlast : ("SELECT " ++ projection kind ++ " FROM ").toList.getLast? = some ' ' := by
    cases kind <;> decide
  -- A source is one word, or one in the parentheses of `table`, and none of these is `WHERE`.
  have hcheck : [Dialect.clickHouse, Dialect.proton].all fun d => Entity.all.all fun e =>
      (d.source e).all fun source =>
        (Sql.tokens 0 source.toList).any (·.all (!·.spells .where)) := by decide +kernel
  have hnone := List.all_eq_true.1 (List.all_eq_true.1 hcheck d (by simpa [Dialect.IsSql] using hd))
    e (Entity.mem_all e)
  rw [hsource, Option.all_some] at hnone
  obtain ⟨ts, hts, hall⟩ := hselect
  obtain ⟨us, hus, hall'⟩ := (Option.any_eq_true _ _).1 hnone
  refine ⟨ts ++ us, ?_, List.forall_mem_append.2 ⟨hall, by simpa using hall'⟩⟩
  rw [String.toList_append, Sql.tokens_append hts (Nat.zero_le _), hus]
  · rfl
  · intro c hc _ _
    rw [hlast] at hc
    cases hc
    exact Or.inl (by decide)

/-- What stands after the filter ends it. -/
theorem closes_after {after : List Piece} (hafter : after = [] ∨
      ∃ word ∈ [" ORDER BY ", " LIMIT "], ∃ t rest, after = .text (word ++ t) :: rest)
    (htext : ∀ p ∈ after, ∃ s, p = .text s) (hneat : ∀ p ∈ after, p.IsNeat) (mode : Mode)
    (number : Nat) : Sql.Closes (Piece.spelled d mode number after) := by
  have hquote : '\'' ∉ Piece.spelled d mode number after := by
    clear hafter
    induction after with
    | nil => simp [Piece.spelled]
    | cons p after ih =>
      obtain ⟨⟨s, rfl⟩, htext'⟩ := List.forall_mem_cons.1 htext
      obtain ⟨hs, hneat'⟩ := List.forall_mem_cons.1 hneat
      rw [Piece.spelled, List.mem_append]
      refine not_or.2 ⟨fun hmem => ?_, ih htext' hneat'⟩
      exact absurd (hs.plain _ hmem) (by decide)
  rcases hafter with rfl | ⟨word, hword, t, rest, rfl⟩
  · exact ⟨nofun, [], rfl, nofun⟩
  · rw [Piece.spelled, String.toList_append, List.append_assoc] at hquote ⊢
    have hrest := (not_or.1 (List.mem_append.not.1 hquote)).2
    simp only [List.mem_cons, List.not_mem_nil, or_false] at hword
    rcases hword with rfl | rfl
    · have htokens : Sql.tokens 0 " ORDER BY ".toList = some [.word "ORDER", .word "BY"] := by
        decide +kernel
      exact Sql.closes_gap (by decide) htokens ⟨_, rfl, by decide +kernel⟩ hrest
    · have htokens : Sql.tokens 0 " LIMIT ".toList = some [.word "LIMIT"] := by decide +kernel
      exact Sql.closes_gap (by decide) htokens ⟨_, rfl, by decide +kernel⟩ hrest

end Clauses

namespace Query

/-- The filter of a statement is that of the conditions, with the meaning that precedence gives
them. -/
theorem exists_filter {q : Query} {backend : Backend} (hd : backend.dialect.IsSql) (hq : q.Named)
    (hcs : ChainFormed .first q.conditions) {mode : Mode} {now : Time.Timestamp} {a : Artifact}
    (ha : q.compile backend mode now = .ok a) : ∃ f, Sql.filter? a.statement = some f ∧
      List.Forall₂ (Compiler.Written (q.context backend now) mode) (comparisonsOf q.conditions)
        f.atoms ∧
      ∀ truth number, f.eval truth number = Rule.precedence.eval truth number q.conditions := by
  obtain ⟨ps, hps, rfl⟩ := compile_eq_ok_iff.1 ha
  have hneat := hq.pieces_isNeat hps
  obtain ⟨source, offset, filter, keys, hsource, hoffset, hfilter, -, rfl⟩ :=
    pieces_eq_ok_iff.1 hps
  rcases Compiler.filter_eq_ok_iff.1 hfilter with ⟨hnil, -⟩ | ⟨-, qs, hqs, rfl⟩
  · exact absurd hnil (Compiler.ChainFormed.ne_nil hcs)
  -- Without a limit there is no page, so that no `OFFSET` comes right after the filter.
  have hlimit : q.appliedLimit = none → offset = 0 := by
    intro hlimit
    rw [hlimit] at hoffset
    cases hpage : q.appliedPage with
    | none =>
      rw [hpage] at hoffset
      cases hoffset
      rfl
    | some page =>
      rw [hpage] at hoffset
      cases hoffset
  obtain ⟨after, hpieces, hafter, htexts⟩ :=
    Clauses.statement_sql hd q.kind source qs keys hlimit
  rw [hpieces] at hneat ⊢
  obtain ⟨ts, hts, hpre⟩ := Clauses.tokens_head hd q.kind hsource
  obtain ⟨us, items, hread, heval, hatoms⟩ := Compiler.chain_reads
    (show (q.context backend now).dialect.IsSql from hd) mode hcs hqs 1
  have hcloses := Clauses.closes_after (d := backend.dialect) hafter htexts
    (fun p hp => hneat p (by simp [hp])) mode (1 + (Piece.params qs).length)
  refine ⟨_, Sql.filter?_eq ?_ hts hpre hread hcloses, hatoms, heval⟩
  rw [Piece.toList_write, Piece.spelled, Piece.spelled, Piece.spelled_append]
  rfl

/-- An engine reads the filter of a query as the comparisons of the query, put together by
precedence. That is their value from left to right, for all truth values, if and only if no chain has
an `and` after an `or`. -/
theorem filter_means {text : String} {q : Query} (hq : Query.parse text = .ok q)
    (hne : q.conditions ≠ []) (page : Option Page) {backend : Backend}
    (hbackend : backend ≠ .arangoDb) (mode : Mode) (now : Time.Timestamp) {a : Artifact}
    (ha : Query.compile { q with page := page } backend mode now = .ok a) :
    ∃ f, Sql.filter? a.statement = some f ∧
      List.Forall₂ (Compiler.Written (q.context backend now) mode) (comparisonsOf q.conditions)
        f.atoms ∧
      (∀ truth, f.eval truth 0 = Rule.precedence.eval truth 0 q.conditions) ∧
      ((∀ truth, f.eval truth 0 = Rule.leftToRight.eval truth 0 q.conditions) ↔
        ChainUnmixed q.conditions) := by
  have hd := backend.isSql_dialect hbackend
  have hcs : ChainFormed .first q.conditions := (Query.parse_formed hq).conditions hne
  obtain ⟨f, hf, hatoms, heval⟩ := exists_filter hd (Query.named_of_parse hq page) hcs ha
  refine ⟨f, hf, hatoms, fun truth => heval truth 0, ?_⟩
  rw [← Rule.eval_eq_iff_unmixed hcs 0]
  constructor
  · intro h truth
    rw [← h truth]
    exact heval truth 0
  · intro h truth
    rw [h truth]
    exact heval truth 0

/-- A range, a group and a text that looks like the end of one. -/
theorem filter_means_nested : ∃ q a,
    Query.parse "show logs where a between 1 and 2 and (b = 'x) OR (' or c = 3) limit 5" = .ok q ∧
    q.conditions ≠ [] ∧ Backend.proton ≠ .arangoDb ∧
    Query.compile { q with page := q.page } .proton .literal (.midnight ⟨2024, 1, 1⟩) = .ok a ∧
    ∃ f, Sql.filter? a.statement = some f ∧
      List.Forall₂ (Compiler.Written (q.context .proton (.midnight ⟨2024, 1, 1⟩)) .literal)
        (comparisonsOf q.conditions) f.atoms ∧
      (∀ truth, f.eval truth 0 = Rule.precedence.eval truth 0 q.conditions) ∧
      ((∀ truth, f.eval truth 0 = Rule.leftToRight.eval truth 0 q.conditions) ↔
        ChainUnmixed q.conditions) := by
  obtain ⟨q, a, hq, ha, -⟩ := exists_of_statement? (show statement?
      "show logs where a between 1 and 2 and (b = 'x) OR (' or c = 3) limit 5" .proton .literal
      (.midnight ⟨2024, 1, 1⟩) = some
      "SELECT * FROM table(logs) WHERE a BETWEEN 1 AND 2 AND (b = 'x) OR (' OR c = 3) LIMIT 5"
      by decide +kernel)
  obtain ⟨q', hq', hlength⟩ := toOption_map_eq_some_iff.1
    (show (Query.parse
      "show logs where a between 1 and 2 and (b = 'x) OR (' or c = 3) limit 5").toOption.map
      (·.conditions.length) = some 2 by decide +kernel)
  obtain rfl : q = q' := Except.ok.inj (hq.symm.trans hq')
  have hne : q.conditions ≠ [] := by
    intro hnil
    simp [hnil] at hlength
  exact ⟨q, a, hq, hne, by decide, ha, filter_means hq hne q.page (by decide) .literal _ ha⟩

/-- Where an `and` comes after an `or`, the engine and the query language may differ. -/
theorem filter_ne_leftToRight : ∃ q a f,
    Query.parse "show devices where hostname = 'a' or ip = 'b' and mac = 'c'" = .ok q ∧
    q.compile .clickHouse .parameterized (.midnight ⟨2024, 1, 1⟩) = .ok a ∧
    a.statement = "SELECT * FROM devices WHERE hostname = $1 OR ip = $2 AND mac = $3" ∧
    Sql.filter? a.statement = some f ∧
    f.eval (· = 0) 0 = true ∧ Rule.leftToRight.eval (· = 0) 0 q.conditions = false := by
  obtain ⟨q, a, hq, ha, hstatement⟩ := exists_of_statement? (show statement?
      "show devices where hostname = 'a' or ip = 'b' and mac = 'c'" .clickHouse .parameterized
      (.midnight ⟨2024, 1, 1⟩) = some
      "SELECT * FROM devices WHERE hostname = $1 OR ip = $2 AND mac = $3" by decide +kernel)
  obtain ⟨q', hq', hvalue⟩ := toOption_map_eq_some_iff.1
    (show (Query.parse "show devices where hostname = 'a' or ip = 'b' and mac = 'c'").toOption.map
      (fun q => Rule.leftToRight.eval (· = 0) 0 q.conditions) = some false by decide +kernel)
  obtain rfl : q = q' := Except.ok.inj (hq.symm.trans hq')
  obtain ⟨f, hf, hread⟩ := Option.map_eq_some_iff.1
    (show (Sql.filter? "SELECT * FROM devices WHERE hostname = $1 OR ip = $2 AND mac = $3").map
      (·.eval (· = 0) 0) = some true by decide +kernel)
  exact ⟨q, a, f, hq, ha, hstatement, hstatement ▸ hf, hread, hvalue⟩

end Query

end NetQuery
