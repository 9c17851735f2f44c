import NetQuery.Proofs.Expressions
import NetQuery.Proofs.Placeholders

/-!
# Reading statements back

A statement of an SQL engine says everything about its query but the values and whether only the
latest records are wanted: two queries with one statement agree in the rest. The proof reads both
statements from the left at once. Every part ends where the text says so, whatever follows it: an
operator is known by the text after its field, an operand is a word or a placeholder, a range takes
the `AND` after its lower bound, and a chain goes on as long as a connective follows.
-/

namespace NetQuery

/-! ## The characters of pieces -/

namespace Piece

/-- The characters of pieces, of which the first placeholder has the given number. -/
def chars (d : Dialect) (number : Nat) (ps : List Piece) : List Char :=
  (numbered d number ps).toList

variable (d : Dialect) (number : Nat)

@[simp] theorem chars_nil : chars d number [] = [] := by
  simp [chars, numbered]

@[simp] theorem chars_text (s : String) (ps : List Piece) :
    chars d number (.text s :: ps) = s.toList ++ chars d number ps := by
  simp [chars, numbered]

@[simp] theorem chars_param (p : Param) (ps : List Piece) :
    chars d number (.param p :: ps) =
      (d.placeholder number).toList ++ chars d (number + 1) ps := by
  simp [chars, numbered]

/-- Placeholders go on counting where the pieces before them stopped. -/
theorem chars_append (ps qs : List Piece) :
    chars d number (ps ++ qs) =
      chars d number ps ++ chars d (number + (params ps).length) qs := by
  induction ps generalizing number with
  | nil => simp [params]
  | cons p ps ih =>
    cases p with
    | text s => rw [List.cons_append, chars_text, chars_text, ih, List.append_assoc, params]
    | param p =>
      have hcount : number + 1 + (params ps).length = number + (p :: params ps).length := by
        rw [List.length_cons]
        omega
      rw [List.cons_append, chars_param, chars_param, ih, List.append_assoc, params, hcount]

end Piece

/-! ## Operands -/

/-- The date keyword that a scalar is, if it is one. -/
def Value.keyword? : Value → Option DateKeyword
  | .keyword word => some word
  | _ => none

/-- The date keyword at a position of an operand, if there is one. -/
def Value.keywordAt (value : Value) (i : Nat) : Option DateKeyword :=
  value.scalars[i]?.bind Value.keyword?

/-- How an SQL engine writes a date keyword. -/
def DateKeyword.word : DateKeyword → String
  | .today => "today()"
  | .yesterday => "yesterday()"

theorem DateKeyword.word_code (k l : DateKeyword) (h : k.word.toList <+: l.word.toList) : k = l := by
  revert h
  cases k <;> cases l <;> decide

theorem Value.IsScalar.keywordAt {v v' : Value} (hv : v.IsScalar) (hv' : v'.IsScalar)
    (h : v.keyword? = v'.keyword?) (i : Nat) : v.keywordAt i = v'.keywordAt i := by
  have hscalars : ∀ {w : Value}, w.IsScalar → w.scalars = [w] := by
    intro w hw
    cases w with
    | list => exact hw.elim
    | null => exact hw.elim
    | _ => rfl
  unfold Value.keywordAt
  rw [hscalars hv, hscalars hv']
  cases i with
  | zero => exact h
  | succ i => rfl

theorem arrayTexts_keyword? {items : List Value} {texts : List String}
    (h : arrayTexts items = .ok texts) : ∀ v ∈ items, v.keyword? = none := by
  fun_induction arrayTexts items generalizing texts with
  | case1 => simp
  | case2 value rest ih =>
    obtain ⟨texts', htexts, -⟩ := map_eq_ok_iff.1 h
    simpa [Value.keyword?] using ih htexts
  | case3 => cases h

theorem arrayInts_keyword? {items : List Value} {numbers : List Int}
    (h : arrayInts items = .ok numbers) : ∀ v ∈ items, v.keyword? = none := by
  fun_induction arrayInts items generalizing numbers with
  | case1 => simp
  | case2 value rest ih =>
    obtain ⟨numbers', hnumbers, -⟩ := map_eq_ok_iff.1 h
    simpa [Value.keyword?] using ih hnumbers
  | case3 => cases h

/-- There is no date keyword in a list that can be bound. -/
theorem keyword?_of_bindList {items : List Value} {column : Option ColumnType} {param : Param}
    (h : (Value.list items).bindList column = .ok param) : ∀ v ∈ items, v.keyword? = none := by
  rcases Compiler.bindList_cases h with ⟨texts, _, htexts, -⟩ | ⟨numbers, hnumbers, -⟩
  · exact arrayTexts_keyword? htexts
  · exact arrayInts_keyword? hnumbers

theorem keywordAt_of_bindList {items : List Value} {column : Option ColumnType} {param : Param}
    (h : (Value.list items).bindList column = .ok param) (i : Nat) :
    (Value.list items).keywordAt i = none := by
  rw [Value.keywordAt, Option.bind_eq_none_iff]
  exact fun v hv => keyword?_of_bindList h v (List.mem_of_getElem? hv)

namespace Dialect.IsSql

variable {d : Dialect}

theorem dateKeyword (hd : d.IsSql) (k : DateKeyword) : d.dateKeyword k = some k.word := by
  rcases hd with rfl | rfl <;> cases k <;> rfl

theorem placeholder (hd : d.IsSql) (number : Nat) :
    (d.placeholder number).toList = '$' :: Nat.toDigits 10 number := by
  rw [Piece.toList_placeholder]
  rcases hd with rfl | rfl <;> rfl

end Dialect.IsSql

namespace Compiler

variable {d : Dialect} {ctx ctx' : Context} {field field' : RenderedField} {v v' : Value}
  {number : Nat} {r r' : List Char}

/-- An SQL engine has a word for every date keyword, so that all other scalars are values. -/
theorem Scalar.sql_cases (hd : ctx.dialect.IsSql) (hpart : field.datePart = false)
    {ps : List Piece} (h : Scalar ctx field v ps) :
    (∃ k, v = .keyword k ∧ ps = [.text k.word]) ∨
      (v.keyword? = none ∧ ∃ param, ps = [.param param]) := by
  cases h with
  | @native k word _ hword =>
    rw [hd.dateKeyword] at hword
    cases hword
    exact Or.inl ⟨k, rfl, rfl⟩
  | @date k h =>
    rcases h with htrue | hnone
    · rw [hpart] at htrue
      cases htrue
    · rw [hd.dateKeyword] at hnone
      cases hnone
  | @bound _ _ param hkind =>
    refine Or.inr ⟨?_, param, rfl⟩
    cases v with
    | keyword => exact absurd rfl hkind
    | _ => rfl

/-- A scalar is read as a word or as the placeholder that is next. -/
theorem Scalar.unique (hd : d.IsSql) (hctx : ctx.dialect = d) (hctx' : ctx'.dialect = d)
    (hpart : field.datePart = false) (hpart' : field'.datePart = false) {ps ps' : List Piece}
    (h : Scalar ctx field v ps) (h' : Scalar ctx' field' v' ps')
    (heq : Piece.chars d number ps ++ r = Piece.chars d number ps' ++ r') :
    v.keyword? = v'.keyword? ∧ (Piece.params ps).length = (Piece.params ps').length ∧ r = r' := by
  have hmark : ∀ (k : DateKeyword) (s t : List Char),
      k.word.toList ++ s ≠ (d.placeholder number).toList ++ t := by
    intro k s t heq
    rw [hd.placeholder] at heq
    cases k <;> exact absurd (congrArg List.head? heq) (by simp [DateKeyword.word])
  rcases h.sql_cases (hctx ▸ hd) hpart with ⟨k, rfl, rfl⟩ | ⟨hv, param, rfl⟩ <;>
    rcases h'.sql_cases (hctx' ▸ hd) hpart' with ⟨k', rfl, rfl⟩ | ⟨hv', param', rfl⟩ <;>
    simp only [Piece.chars_text, Piece.chars_param, Piece.chars_nil, List.append_nil] at heq
  · obtain ⟨rfl, hr⟩ := code_unique DateKeyword.word_code heq
    exact ⟨rfl, rfl, hr⟩
  · exact absurd heq (hmark k r r')
  · exact absurd heq.symm (hmark k' r' r)
  · exact ⟨hv.trans hv'.symm, rfl, List.append_cancel_left heq⟩

end Compiler

/-! ## Comparisons -/

namespace Operator

/-- The text before the field. -/
def lead : Operator → String
  | .contains => "position("
  | _ => ""

/-- The text between the field and its operands. -/
def sign : Operator → String
  | .compare comparator => " " ++ comparator.text ++ " "
  | .like => " LIKE "
  | .contains => ", "
  | .isIn => " IN "
  | .between => " BETWEEN "
  | .isNull => " IS NULL"
  | .isNotNull => " IS NOT NULL"

/-- What follows the sign. -/
def trail : Operator → Template
  | .compare _ | .like | .isIn => [.operand]
  | .contains => [.operand, .text ") > 0"]
  | .between => [.operand, .text " AND ", .upper]
  | .isNull | .isNotNull => []

theorem lead_eq {op : Operator} (hop : op ≠ .contains) : op.lead = "" := by
  cases op with
  | contains => exact absurd rfl hop
  | _ => rfl

theorem mem_all (op : Operator) : op ∈ Operator.all := by
  cases op with
  | compare c => cases c <;> decide
  | _ => decide

/-- An operator is known by its sign. -/
theorem sign_code (op op' : Operator) (h : op.sign.toList <+: op'.sign.toList) : op = op' :=
  code_of_all mem_all (by decide +kernel) op op' h

theorem stops_sign (op : Operator) (r : List Char) : Compiler.Stops (op.sign.toList ++ r) := by
  have hspace : ∀ r, Compiler.Stops (' ' :: r) := Compiler.stops_cons (by decide) (by decide)
  cases op with
  | compare c => cases c <;> exact hspace _
  | contains => exact Compiler.stops_cons (by decide) (by decide) _
  | _ => exact hspace _

end Operator

/-- Comparisons that agree in all but the values that they compare with. -/
structure Comparison.Alike (c c' : Comparison) : Prop where
  field : FieldsAlike c.field c'.field
  operator : c.operator = c'.operator
  keywords : ∀ i, c.value.keywordAt i = c'.value.keywordAt i

namespace Compiler

variable {d : Dialect} {ctx ctx' : Context} {field field' : RenderedField} {v v' : Value}
  {number : Nat} {r r' : List Char}

theorem template_eq (hd : d.IsSql) (op : Operator) (rendered : RenderedField)
    (operand upper : List Piece) :
    Piece.chars d number (fill (d.template op) rendered operand upper) =
      op.lead.toList ++ (rendered.expression.toList ++ (op.sign.toList ++
        Piece.chars d number (fill op.trail rendered operand upper))) := by
  rcases hd with rfl | rfl <;> cases op <;>
    simp [Dialect.template, Dialect.clickHouse, Dialect.proton, Dialect.sql, fill, Template.fill,
      Operator.lead, Operator.sign, Operator.trail]

theorem params_trail (hd : d.IsSql) (op : Operator) (rendered : RenderedField)
    (operand upper : List Piece) :
    Piece.params (fill (d.template op) rendered operand upper) =
      Piece.params (fill op.trail rendered operand upper) := by
  rw [params_fill, params_fill]
  rcases hd with rfl | rfl <;> cases op <;> rfl

theorem fill_operand (rendered : RenderedField) (operand upper : List Piece) :
    fill [.operand] rendered operand upper = operand := by
  simp [fill, Template.fill]

theorem Scalar.unique_operand (hd : d.IsSql) (hctx : ctx.dialect = d) (hctx' : ctx'.dialect = d)
    (hpart : field.datePart = false) (hpart' : field'.datePart = false)
    {operand upper operand' upper' : List Piece} (hv : v.IsScalar) (hv' : v'.IsScalar)
    (h : Scalar ctx field v operand) (h' : Scalar ctx' field' v' operand')
    (heq : Piece.chars d number (fill [.operand] field operand upper) ++ r =
      Piece.chars d number (fill [.operand] field' operand' upper') ++ r') :
    (∀ i, v.keywordAt i = v'.keywordAt i) ∧
      (Piece.params (fill [.operand] field operand upper)).length =
        (Piece.params (fill [.operand] field' operand' upper')).length ∧ r = r' := by
  rw [fill_operand, fill_operand] at *
  obtain ⟨hkeyword, hcount, hr⟩ := h.unique hd hctx hctx' hpart hpart' h' heq
  exact ⟨hv.keywordAt hv' hkeyword, hcount, hr⟩

/-- The operands of one operator are read in one way. -/
theorem Operands.unique (hd : d.IsSql) (hctx : ctx.dialect = d) (hctx' : ctx'.dialect = d)
    (hpart : field.datePart = false) (hpart' : field'.datePart = false) {op : Operator}
    {operand upper operand' upper' : List Piece} (hv : Operand op v) (hv' : Operand op v')
    (h : Operands ctx field op v operand upper) (h' : Operands ctx' field' op v' operand' upper')
    (heq : Piece.chars d number (fill op.trail field operand upper) ++ r =
      Piece.chars d number (fill op.trail field' operand' upper') ++ r') :
    (∀ i, v.keywordAt i = v'.keywordAt i) ∧
      (Piece.params (fill op.trail field operand upper)).length =
        (Piece.params (fill op.trail field' operand' upper')).length ∧ r = r' := by
  cases h with
  | isNull =>
    cases hv
    cases hv'
    cases h'
    exact ⟨fun _ => rfl, rfl, heq⟩
  | isNotNull =>
    cases hv
    cases hv'
    cases h'
    exact ⟨fun _ => rfl, rfl, heq⟩
  | compare c hscalar =>
    cases hv with
    | compare _ hs =>
      cases hv' with
      | compare _ hs' =>
        cases h' with
        | compare _ hscalar' =>
          exact hscalar.unique_operand hd hctx hctx' hpart hpart' hs hs' hscalar' heq
  | like hscalar =>
    cases hv with
    | like hs =>
      cases hv' with
      | like hs' =>
        cases h' with
        | like hscalar' =>
          exact hscalar.unique_operand hd hctx hctx' hpart hpart' hs hs' hscalar' heq
  | contains hscalar =>
    cases hv
    cases hv'
    cases h' with
    | contains hscalar' =>
      have hfill : ∀ field operand, fill Operator.contains.trail field operand [] =
          operand ++ [.text ") > 0"] := by simp [fill, Template.fill, Operator.trail]
      simp only [hfill, Piece.chars_append, List.append_assoc, Piece.params_append] at heq ⊢
      obtain ⟨-, hcount, hr⟩ := hscalar.unique hd hctx hctx' hpart hpart' hscalar' heq
      refine ⟨fun i => by cases i <;> rfl, by simp [hcount], ?_⟩
      simpa using hr
  | isIn hlist =>
    cases h' with
    | isIn hlist' =>
      refine ⟨fun i => ?_, rfl, List.append_cancel_left heq⟩
      rw [keywordAt_of_bindList hlist, keywordAt_of_bindList hlist']
  | between hlow hhigh =>
    cases h' with
    | between hlow' hhigh' =>
      have hfill : ∀ field lower upper, fill Operator.between.trail field lower upper =
          lower ++ .text " AND " :: upper := by simp [fill, Template.fill, Operator.trail]
      simp only [hfill, Piece.chars_append, Piece.chars_text, List.append_assoc,
        Piece.params_append] at heq ⊢
      -- The lower bounds take as many placeholders, so the upper bounds start at one number.
      obtain ⟨hlower, hcount, heq⟩ := hlow.unique hd hctx hctx' hpart hpart' hlow' heq
      rw [hcount] at heq
      obtain ⟨hupper, hcount', hr⟩ :=
        hhigh.unique hd hctx hctx' hpart hpart' hhigh' (List.append_cancel_left heq)
      refine ⟨?_, by simp [Piece.params, hcount, hcount'], hr⟩
      rintro (_ | _ | i)
      · exact hlower
      · exact hupper
      · rfl

/-- A search is told from the other comparisons by the text before its field. -/
theorem lead_unique (hd : d.IsSql) {op op' : Operator} {f f' : String} {e e' : List Char}
    (h : Spelled d f e) (h' : Spelled d f' e') (hr : Stops r) (hr' : Stops r')
    (heq : op.lead.toList ++ (e ++ r) = op'.lead.toList ++ (e' ++ r')) : op.lead = op'.lead := by
  have hsearch : Operator.contains.lead.toList = "position".toList ++ ['('] := by decide
  by_cases hop : op = .contains
  · by_cases hop' : op' = .contains
    · rw [hop, hop']
    · rw [hop, Operator.lead_eq hop', hsearch, List.append_assoc, String.toList_empty,
        List.nil_append] at heq
      exact absurd heq.symm (h'.ne_position hd hr')
  · by_cases hop' : op' = .contains
    · rw [hop', Operator.lead_eq hop, hsearch, List.append_assoc, String.toList_empty,
        List.nil_append] at heq
      exact absurd heq (h.ne_position hd hr)
    · rw [Operator.lead_eq hop, Operator.lead_eq hop']

/-- Comparisons that are written alike agree in all but their values. -/
theorem comparison_unique (hd : d.IsSql) (hctx : ctx.dialect = d) (hctx' : ctx'.dialect = d)
    {c c' : Comparison} {ps ps' : List Piece} (hc : c.Formed) (hc' : c'.Formed)
    (h : comparison ctx c = .ok ps) (h' : comparison ctx' c' = .ok ps')
    (heq : Piece.chars d number ps ++ r = Piece.chars d number ps' ++ r') :
    c.Alike c' ∧ (Piece.params ps).length = (Piece.params ps').length ∧ r = r' := by
  obtain ⟨field, operand, upper, hfield, -, hoperands, rfl⟩ := comparison_cases h
  obtain ⟨field', operand', upper', hfield', -, hoperands', rfl⟩ := comparison_cases h'
  obtain ⟨hspelled, hpart⟩ := (renderField_cases hc.field hfield).spelled (hctx ▸ hd)
  obtain ⟨hspelled', hpart'⟩ := (renderField_cases hc'.field hfield').spelled (hctx' ▸ hd)
  rw [hctx] at hspelled heq ⊢
  rw [hctx'] at hspelled' heq ⊢
  rw [template_eq hd, template_eq hd] at heq
  rw [params_trail hd, params_trail hd]
  simp only [List.append_assoc] at heq
  have hlead := lead_unique hd hspelled hspelled' (Operator.stops_sign _ _)
    (Operator.stops_sign _ _) heq
  -- The field ends before the sign, and the sign says which operands to expect.
  rw [hlead] at heq
  obtain ⟨hfields, heq⟩ := hspelled.unique hd hspelled' (Operator.stops_sign _ _)
    (Operator.stops_sign _ _) (List.append_cancel_left heq)
  obtain ⟨hop, heq⟩ := code_unique Operator.sign_code heq
  have hv := hc.operand
  rw [hop] at hoperands heq hv ⊢
  obtain ⟨hkeywords, hcount, hr⟩ :=
    hoperands.unique hd hctx hctx' hpart hpart' hv hc'.operand hoperands' heq
  exact ⟨⟨hfields, hop, hkeywords⟩, hcount, hr⟩

/-- No comparison starts with a parenthesis. -/
theorem comparison_ne_paren (hd : d.IsSql) (hctx : ctx.dialect = d) {c : Comparison}
    {ps : List Piece} (hc : c.Formed) (h : comparison ctx c = .ok ps) :
    Piece.chars d number ps ++ r ≠ '(' :: r' := by
  obtain ⟨field, operand, upper, hfield, -, -, rfl⟩ := comparison_cases h
  obtain ⟨hspelled, -⟩ := (renderField_cases hc.field hfield).spelled (hctx ▸ hd)
  rw [hctx] at hspelled ⊢
  rw [template_eq hd, List.append_assoc, List.append_assoc]
  by_cases hop : c.operator = .contains
  · simp [hop, Operator.lead]
  · rw [Operator.lead_eq hop, String.toList_empty, List.nil_append, List.append_assoc]
    exact hspelled.head_ne_paren hd

end Compiler

/-! ## Chains -/

/-- Conditions that have the same shape and agree in all but the values in them. -/
inductive Condition.Alike : Condition → Condition → Prop where
  | compare {link : Link} {c c' : Comparison} (h : c.Alike c') :
      Condition.Alike (.compare link c) (.compare link c')
  | group {link : Link} {members members' : List Condition}
      (h : List.Forall₂ Condition.Alike members members') :
      Condition.Alike (.group link members) (.group link members')

/-- The text of a link in SQL. -/
def Link.word : Link → String
  | .first => ""
  | .and => " AND "
  | .or => " OR "

/-- A text that does not continue a chain. -/
def EndsChain (r : List Char) : Prop :=
  ∀ link : Link, link ≠ .first → ¬ link.word.toList <+: r

namespace Compiler

variable {d : Dialect} {ctx ctx' : Context} {number : Nat} {r r' : List Char}

theorem chars_linkPieces (hd : d.IsSql) (link : Link) (ps : List Piece) :
    Piece.chars d number (linkPieces d link ++ ps) =
      link.word.toList ++ Piece.chars d number ps := by
  rcases hd with rfl | rfl <;> cases link <;>
    simp [linkPieces, Link.word, Dialect.clickHouse, Dialect.proton, Dialect.sql]

theorem params_linkPieces (link : Link) (ps : List Piece) :
    Piece.params (linkPieces d link ++ ps) = Piece.params ps := by
  cases link <;> simp [linkPieces, Piece.params]

theorem chars_group (ps : List Piece) (r : List Char) :
    Piece.chars d number (.text "(" :: (ps ++ [.text ")"])) ++ r =
      '(' :: (Piece.chars d number ps ++ ')' :: r) := by
  simp [Piece.chars_append]

/-- A condition starts with its connective. -/
theorem condition_starts (hd : d.IsSql) (hctx : ctx.dialect = d) {link : Link} {c : Condition}
    {ps : List Piece} (hc : c.Formed link) (h : condition ctx c = .ok ps) :
    ∃ t, Piece.chars d number ps = link.word.toList ++ t := by
  cases hc with
  | compare =>
    obtain ⟨qs, -, rfl⟩ := condition_compare_eq_ok_iff.1 h
    rw [hctx]
    exact ⟨_, chars_linkPieces hd link _⟩
  | group =>
    obtain ⟨qs, -, rfl⟩ := condition_group_eq_ok_iff.1 h
    rw [hctx]
    exact ⟨_, chars_linkPieces hd link _⟩

theorem chainFormed_cons {link : Link} {c : Condition} {cs : List Condition}
    (h : ChainFormed link (c :: cs)) :
    c.Formed link ∧ (cs = [] ∨ ∃ next, next ≠ .first ∧ ChainFormed next cs) := by
  cases h with
  | last hc => exact ⟨hc, Or.inl rfl⟩
  | more hc hnext hcs => exact ⟨hc, Or.inr ⟨_, hnext, hcs⟩⟩

theorem ChainFormed.ne_nil {link : Link} {cs : List Condition} (h : ChainFormed link cs) :
    cs ≠ [] := by
  cases h <;> simp

theorem chain_starts (hd : d.IsSql) (hctx : ctx.dialect = d) {link : Link} {cs : List Condition}
    {ps : List Piece} (hcs : ChainFormed link cs) (h : chain ctx cs = .ok ps) :
    ∃ t, Piece.chars d number ps = link.word.toList ++ t := by
  obtain ⟨c, cs, rfl⟩ := List.exists_cons_of_ne_nil (ChainFormed.ne_nil hcs)
  obtain ⟨qs, rs, hqs, -, rfl⟩ := chain_cons_eq_ok_iff.1 h
  obtain ⟨t, ht⟩ := condition_starts hd hctx (chainFormed_cons hcs).1 hqs
  rw [Piece.chars_append, ht, List.append_assoc]
  exact ⟨_, rfl⟩

theorem word_unique {link link' : Link} (hlink : link ≠ .first) (hlink' : link' ≠ .first)
    (heq : link.word.toList ++ r = link'.word.toList ++ r') : link = link' := by
  cases link <;> cases link' <;> simp_all [Link.word]

theorem endsChain_paren (r : List Char) : EndsChain (')' :: r) := by
  rintro link hlink ⟨t, ht⟩
  cases link with
  | first => exact hlink rfl
  | and => simp [Link.word] at ht
  | or => simp [Link.word] at ht

mutual

theorem condition_unique (hd : d.IsSql) (hctx : ctx.dialect = d) (hctx' : ctx'.dialect = d)
    {link : Link} {c c' : Condition} {number : Nat} {r r' : List Char} {ps ps' : List Piece}
    (hc : c.Formed link) (hc' : c'.Formed link) (h : condition ctx c = .ok ps)
    (h' : condition ctx' c' = .ok ps')
    (heq : Piece.chars d number ps ++ r = Piece.chars d number ps' ++ r') :
    c.Alike c' ∧ (Piece.params ps).length = (Piece.params ps').length ∧ r = r' := by
  cases c with
  | compare _ c =>
    cases hc with
    | compare hc =>
      obtain ⟨qs, hqs, rfl⟩ := condition_compare_eq_ok_iff.1 h
      cases hc' with
      | compare hc' =>
        obtain ⟨qs', hqs', rfl⟩ := condition_compare_eq_ok_iff.1 h'
        rw [hctx, hctx', chars_linkPieces hd, chars_linkPieces hd, List.append_assoc,
          List.append_assoc] at heq
        rw [params_linkPieces, params_linkPieces]
        obtain ⟨halike, hrest⟩ :=
          comparison_unique hd hctx hctx' hc hc' hqs hqs' (List.append_cancel_left heq)
        exact ⟨.compare halike, hrest⟩
      | group =>
        obtain ⟨qs', -, rfl⟩ := condition_group_eq_ok_iff.1 h'
        rw [hctx, hctx', chars_linkPieces hd, chars_linkPieces hd, List.append_assoc,
          List.append_assoc, chars_group] at heq
        exact absurd (List.append_cancel_left heq) (comparison_ne_paren hd hctx hc hqs)
  | group _ members =>
    cases hc with
    | group hmembers =>
      obtain ⟨qs, hqs, rfl⟩ := condition_group_eq_ok_iff.1 h
      cases hc' with
      | compare hc' =>
        obtain ⟨qs', hqs', rfl⟩ := condition_compare_eq_ok_iff.1 h'
        rw [hctx, hctx', chars_linkPieces hd, chars_linkPieces hd, List.append_assoc,
          List.append_assoc, chars_group] at heq
        exact absurd (List.append_cancel_left heq).symm (comparison_ne_paren hd hctx' hc' hqs')
      | group hmembers' =>
        obtain ⟨qs', hqs', rfl⟩ := condition_group_eq_ok_iff.1 h'
        rw [hctx, hctx', chars_linkPieces hd, chars_linkPieces hd, List.append_assoc,
          List.append_assoc, chars_group, chars_group] at heq
        have hinside := (List.cons.inj (List.append_cancel_left heq)).2
        obtain ⟨halike, hcount, hr⟩ := chain_unique hd hctx hctx' hmembers hmembers' hqs hqs'
          (endsChain_paren r) (endsChain_paren r') hinside
        rw [params_linkPieces, params_linkPieces]
        refine ⟨.group halike, ?_, (List.cons.inj hr).2⟩
        simpa [Piece.params, Piece.params_append] using hcount

theorem chain_unique (hd : d.IsSql) (hctx : ctx.dialect = d) (hctx' : ctx'.dialect = d)
    {link : Link} {cs cs' : List Condition} {number : Nat} {r r' : List Char}
    {ps ps' : List Piece} (hcs : ChainFormed link cs) (hcs' : ChainFormed link cs')
    (h : chain ctx cs = .ok ps) (h' : chain ctx' cs' = .ok ps') (hr : EndsChain r)
    (hr' : EndsChain r') (heq : Piece.chars d number ps ++ r = Piece.chars d number ps' ++ r') :
    List.Forall₂ Condition.Alike cs cs' ∧
      (Piece.params ps).length = (Piece.params ps').length ∧ r = r' := by
  cases cs with
  | nil => exact absurd rfl (ChainFormed.ne_nil hcs)
  | cons c cs =>
    obtain ⟨c', cs', rfl⟩ := List.exists_cons_of_ne_nil (ChainFormed.ne_nil hcs')
    obtain ⟨hc, htail⟩ := chainFormed_cons hcs
    obtain ⟨hc', htail'⟩ := chainFormed_cons hcs'
    obtain ⟨qs, rs, hqs, hrs, rfl⟩ := chain_cons_eq_ok_iff.1 h
    obtain ⟨qs', rs', hqs', hrs', rfl⟩ := chain_cons_eq_ok_iff.1 h'
    rw [Piece.chars_append, Piece.chars_append, List.append_assoc, List.append_assoc] at heq
    obtain ⟨halike, hcount, heq⟩ := condition_unique hd hctx hctx' hc hc' hqs hqs' heq
    rw [hcount] at heq
    -- A chain goes on in one text if and only if it goes on in the other.
    have hrest : List.Forall₂ Condition.Alike cs cs' ∧
        (Piece.params rs).length = (Piece.params rs').length ∧ r = r' := by
      rcases htail with rfl | ⟨next, hnext, htail⟩
      · cases hrs
        rcases htail' with rfl | ⟨next', hnext', htail'⟩
        · cases hrs'
          exact ⟨.nil, rfl, by simpa using heq⟩
        · obtain ⟨t, ht⟩ := chain_starts hd hctx' htail' hrs'
          rw [Piece.chars_nil, List.nil_append, ht, List.append_assoc] at heq
          exact absurd ⟨_, heq.symm⟩ (hr next' hnext')
      · obtain ⟨t, ht⟩ := chain_starts hd hctx htail hrs
        rcases htail' with rfl | ⟨next', hnext', htail'⟩
        · cases hrs'
          rw [Piece.chars_nil, List.nil_append, ht, List.append_assoc] at heq
          exact absurd ⟨_, heq⟩ (hr' next hnext)
        · obtain ⟨t', ht'⟩ := chain_starts hd hctx' htail' hrs'
          have hwords := heq
          rw [ht, ht', List.append_assoc, List.append_assoc] at hwords
          obtain rfl := word_unique hnext hnext' hwords
          exact chain_unique hd hctx hctx' htail htail' hrs hrs' hr hr' heq
    obtain ⟨hconditions, hcount', hr⟩ := hrest
    refine ⟨.cons halike hconditions, ?_, hr⟩
    rw [Piece.params_append, Piece.params_append, List.length_append, List.length_append, hcount,
      hcount']

end

end Compiler

/-! ## Clauses -/

namespace Clauses

/-- What an SQL engine is asked for. -/
def projection : QueryKind → String
  | .records => "*"
  | .count => "COUNT(*)"

/-- The text of the filter. -/
def filterText (d : Dialect) : Option (List Piece) → String
  | none => ""
  | some ps => " WHERE " ++ Piece.numbered d 1 ps

/-- The text of the ordering. -/
def orderText (keys : List String) : String :=
  if keys.isEmpty then "" else " ORDER BY " ++ Text.join ", " keys

/-- The text of the limit. -/
def limitText : Option Nat → String
  | none => ""
  | some limit => " LIMIT " ++ toString limit

/-- The text of a statement without an offset, clause by clause. -/
theorem numbered_sql {d : Dialect} (hd : d.IsSql) (kind : QueryKind) (source : String)
    (filter : Option (List Piece)) (keys : List String) (limit : Option Nat) :
    Piece.numbered d 1 (Clauses.statement ⟨kind, source, filter, keys, limit, 0⟩ d.shape) =
      "SELECT " ++ (projection kind ++ (" FROM " ++ (source ++
        (filterText d filter ++ (orderText keys ++ limitText limit))))) := by
  have hshape : d.shape = .sql "COUNT(*)" := by
    rcases hd with rfl | rfl <;> rfl
  rw [hshape, Clauses.statement, Clauses.sql, ← String.toList_inj]
  change Piece.chars d 1 _ = _
  have hnumbered : ∀ ps, (Piece.numbered d 1 ps).toList = Piece.chars d 1 ps := fun _ => rfl
  have horder : ∀ n, Piece.chars d n (if keys.isEmpty then []
      else [.text (" ORDER BY " ++ Text.join ", " keys)]) = (orderText keys).toList := by
    intro n
    cases keys <;> simp [orderText]
  simp only [Piece.chars_text, Piece.chars_append, horder]
  cases kind <;> cases filter <;> cases limit <;>
    simp [projection, filterText, limitText, hnumbered]

theorem projection_code (a b : QueryKind)
    (h : (projection a).toList <+: (projection b).toList) : a = b := by
  revert h
  cases a <;> cases b <;> decide

/-- What follows the filter is nothing, an ordering or a limit. -/
theorem afterFilter_cases (keys : List String) (limit : Option Nat) :
    ∃ t, (orderText keys ++ limitText limit).toList ∈
      [[], " ORDER BY ".toList ++ t, " LIMIT ".toList ++ t] := by
  cases keys with
  | nil =>
    cases limit with
    | none => exact ⟨[], by simp [orderText, limitText]⟩
    | some limit => exact ⟨(toString limit).toList, by simp [orderText, limitText]⟩
  | cons key keys =>
    exact ⟨(Text.join ", " (key :: keys) ++ limitText limit).toList, by simp [orderText]⟩

theorem endsChain_afterFilter (keys : List String) (limit : Option Nat) :
    EndsChain (orderText keys ++ limitText limit).toList := by
  rintro link hlink ⟨u, hu⟩
  obtain ⟨t, ht⟩ := afterFilter_cases keys limit
  rw [← hu] at ht
  cases link with
  | first => exact hlink rfl
  | and => simp [Link.word] at ht
  | or => simp [Link.word] at ht

theorem afterFilter_ne_where (keys : List String) (limit : Option Nat) (u : List Char) :
    (orderText keys ++ limitText limit).toList ≠ " WHERE ".toList ++ u := by
  intro hu
  obtain ⟨t, ht⟩ := afterFilter_cases keys limit
  simp [hu] at ht

theorem limitText_injective {limit limit' : Option Nat}
    (h : (limitText limit).toList = (limitText limit').toList) : limit = limit' := by
  cases limit with
  | none =>
    cases limit' with
    | none => rfl
    | some limit' => simp [limitText] at h
  | some limit =>
    cases limit' with
    | none => simp [limitText] at h
    | some limit' =>
      have hdigits : Nat.toDigits 10 limit = Nat.toDigits 10 limit' := by simpa [limitText] using h
      rw [← Piece.value_toDigits limit, hdigits, Piece.value_toDigits]

open Compiler in
/-- Orderings and limits that are written alike agree. -/
theorem afterFilter_unique {d : Dialect} (hd : d.IsSql) {items items' : List OrderItem}
    {keys keys' : List String} {limit limit' : Option Nat}
    (h : List.Forall₂ (SpelledKey d) items keys) (h' : List.Forall₂ (SpelledKey d) items' keys')
    (heq : (orderText keys ++ limitText limit).toList =
      (orderText keys' ++ limitText limit').toList) :
    List.Forall₂ KeysAlike items items' ∧ limit = limit' := by
  have hcomma : ∀ limit, (limitText limit).toList.head? ≠ some ',' := by
    intro limit
    cases limit <;> simp [limitText]
  have hnone : ∀ limit : Option Nat, (orderText [] ++ limitText limit).toList =
      (limitText limit).toList := by simp [orderText]
  have hsome : ∀ (key : String) (keys : List String) (limit : Option Nat),
      (orderText (key :: keys) ++ limitText limit).toList = " ORDER BY ".toList ++
        ((Text.join ", " (key :: keys)).toList ++ (limitText limit).toList) := by
    simp [orderText]
  have hlimit : ∀ (limit : Option Nat) (t : List Char),
      (limitText limit).toList ≠ " ORDER BY ".toList ++ t := by
    intro limit t
    cases limit <;> simp [limitText]
  cases h with
  | nil =>
    cases h' with
    | nil =>
      rw [hnone, hnone] at heq
      exact ⟨.nil, limitText_injective heq⟩
    | cons =>
      rw [hnone, hsome] at heq
      exact absurd heq (hlimit limit _)
  | cons hkey hkeys =>
    cases h' with
    | nil =>
      rw [hnone, hsome] at heq
      exact absurd heq.symm (hlimit limit' _)
    | cons hkey' hkeys' =>
      rw [hsome, hsome] at heq
      obtain ⟨halike, hrest⟩ := keys_unique hd (.cons hkey hkeys) (.cons hkey' hkeys') (by simp)
        (by simp) (hcomma limit) (hcomma limit') (List.append_cancel_left heq)
      exact ⟨halike, limitText_injective hrest⟩

end Clauses

/-! ## Statements -/

theorem Entity.mem_all (e : Entity) : e ∈ Entity.all := by
  cases e <;> decide

/-- No source of an SQL engine begins another. -/
theorem source_unique {d : Dialect} (hd : d.IsSql) {e e' : Entity} {s s' : String}
    {r r' : List Char} (h : d.source e = some s) (h' : d.source e' = some s')
    (heq : s.toList ++ r = s'.toList ++ r') : e = e' ∧ r = r' := by
  rcases hd with rfl | rfl
  · cases h
    cases h'
    have hcode : ∀ a b : Entity, a.name.toList <+: b.name.toList → a = b :=
      code_of_all Entity.mem_all (by decide +kernel)
    exact code_unique hcode heq
  · cases h
    cases h'
    have hcode : ∀ a b : Entity, ("table(" ++ Dialect.streamName a ++ ")").toList <+:
        ("table(" ++ Dialect.streamName b ++ ")").toList → a = b :=
      code_of_all Entity.mem_all (by decide +kernel)
    exact code_unique hcode heq

namespace Query

variable {q : Query} {backend : Backend} {now : Time.Timestamp} {a : Artifact}

/-- All clauses of a query that was read apply, and it starts with the first record. -/
theorem Formed.applied (h : q.Formed) : q.appliedLimit = q.limit ∧ q.appliedOrder = q.orderBy ∧
    q.appliedPage = none := by
  unfold appliedLimit appliedOrder appliedPage
  cases hkind : q.kind with
  | records => exact ⟨rfl, rfl, h.page⟩
  | count =>
    obtain ⟨horder, hlimit, -⟩ := h.count hkind
    exact ⟨hlimit.symm, horder.symm, rfl⟩

/-- The statement that an SQL engine gets for a query, clause by clause. -/
theorem Formed.statement_eq (hq : q.Formed) (hd : backend.dialect.IsSql)
    (ha : q.compile backend .parameterized now = .ok a) : ∃ source filter keys,
    backend.dialect.source q.entity = some source ∧
    Compiler.filter (q.context backend now) q.conditions = .ok filter ∧
    List.Forall₂ (Compiler.SpelledKey backend.dialect) q.orderBy keys ∧
    a.statement = "SELECT " ++ (Clauses.projection q.kind ++ (" FROM " ++ (source ++
      (Clauses.filterText backend.dialect filter ++
        (Clauses.orderText keys ++ Clauses.limitText q.limit))))) := by
  obtain ⟨ps, hps, rfl⟩ := compile_eq_ok_iff.1 ha
  obtain ⟨source, offset, filter, keys, hsource, hoffset, hfilter, horder, rfl⟩ :=
    pieces_eq_ok_iff.1 hps
  obtain ⟨hlimit, hitems, hpage⟩ := hq.applied
  rw [hpage] at hoffset
  cases hoffset
  rw [hitems] at horder
  refine ⟨source, filter, keys, hsource, hfilter,
    Compiler.order_spelled hd hq.orderBy horder, ?_⟩
  rw [hlimit]
  exact Clauses.numbered_sql hd _ _ _ _ _

/-- Filters that are written alike have the same conditions up to their values. -/
theorem filter_unique {d : Dialect} (hd : d.IsSql) {ctx ctx' : Compiler.Context}
    (hctx : ctx.dialect = d) (hctx' : ctx'.dialect = d) {cs cs' : List Condition}
    {filter filter' : Option (List Piece)} (hcs : cs ≠ [] → ChainFormed .first cs)
    (hcs' : cs' ≠ [] → ChainFormed .first cs') (h : Compiler.filter ctx cs = .ok filter)
    (h' : Compiler.filter ctx' cs' = .ok filter') {keys keys' : List String}
    {limit limit' : Option Nat}
    (heq : (Clauses.filterText d filter).toList ++
        (Clauses.orderText keys ++ Clauses.limitText limit).toList =
      (Clauses.filterText d filter').toList ++
        (Clauses.orderText keys' ++ Clauses.limitText limit').toList) :
    List.Forall₂ Condition.Alike cs cs' ∧
      (Clauses.orderText keys ++ Clauses.limitText limit).toList =
        (Clauses.orderText keys' ++ Clauses.limitText limit').toList := by
  have hsome : ∀ ps, (Clauses.filterText d (some ps)).toList =
      " WHERE ".toList ++ Piece.chars d 1 ps := fun ps => String.toList_append
  have hnone : (Clauses.filterText d none).toList = [] := rfl
  rcases Compiler.filter_eq_ok_iff.1 h with ⟨rfl, rfl⟩ | ⟨hne, ps, hps, rfl⟩
  · rcases Compiler.filter_eq_ok_iff.1 h' with ⟨rfl, rfl⟩ | ⟨hne', ps', hps', rfl⟩
    · exact ⟨.nil, List.append_cancel_left heq⟩
    · rw [hnone, hsome, List.nil_append, List.append_assoc] at heq
      exact absurd heq (Clauses.afterFilter_ne_where _ _ _)
  · rcases Compiler.filter_eq_ok_iff.1 h' with ⟨rfl, rfl⟩ | ⟨hne', ps', hps', rfl⟩
    · rw [hnone, hsome, List.nil_append, List.append_assoc] at heq
      exact absurd heq.symm (Clauses.afterFilter_ne_where _ _ _)
    · rw [hsome, hsome, List.append_assoc, List.append_assoc] at heq
      obtain ⟨halike, -, hrest⟩ := Compiler.chain_unique hd hctx hctx' (hcs hne) (hcs' hne') hps
        hps' (Clauses.endsChain_afterFilter _ _) (Clauses.endsChain_afterFilter _ _)
        (List.append_cancel_left heq)
      exact ⟨halike, hrest⟩

/-- A statement of an SQL engine determines its query up to the values in it and up to whether only
the latest records are wanted. -/
theorem alike_of_statement_eq {text text' : String} {q q' : Query} {a a' : Artifact}
    {backend : Backend} (hbackend : backend ≠ .arangoDb) (now now' : Time.Timestamp)
    (hq : Query.parse text = .ok q) (hq' : Query.parse text' = .ok q')
    (ha : q.compile backend .parameterized now = .ok a)
    (ha' : q'.compile backend .parameterized now' = .ok a')
    (heq : a.statement = a'.statement) :
    q.kind = q'.kind ∧ q.entity = q'.entity ∧ q.limit = q'.limit ∧
      List.Forall₂ Compiler.KeysAlike q.orderBy q'.orderBy ∧
      List.Forall₂ Condition.Alike q.conditions q'.conditions := by
  have hd := backend.isSql_dialect hbackend
  have hformed := Query.parse_formed hq
  have hformed' := Query.parse_formed hq'
  obtain ⟨source, filter, keys, hsource, hfilter, hkeys, hstatement⟩ :=
    hformed.statement_eq hd ha
  obtain ⟨source', filter', keys', hsource', hfilter', hkeys', hstatement'⟩ :=
    hformed'.statement_eq hd ha'
  have hread : "SELECT ".toList ++ ((Clauses.projection q.kind).toList ++ (" FROM ".toList ++
      (source.toList ++ ((Clauses.filterText backend.dialect filter).toList ++
        (Clauses.orderText keys ++ Clauses.limitText q.limit).toList)))) =
      "SELECT ".toList ++ ((Clauses.projection q'.kind).toList ++ (" FROM ".toList ++
      (source'.toList ++ ((Clauses.filterText backend.dialect filter').toList ++
        (Clauses.orderText keys' ++ Clauses.limitText q'.limit).toList)))) := by
    rw [hstatement, hstatement'] at heq
    simpa only [String.toList_append] using congrArg String.toList heq
  -- The clauses are read from left to right, each up to where the next one starts.
  obtain ⟨hkind, hread⟩ :=
    code_unique Clauses.projection_code (List.append_cancel_left hread)
  obtain ⟨hentity, hread⟩ := source_unique hd hsource hsource' (List.append_cancel_left hread)
  obtain ⟨hconditions, hread⟩ := filter_unique hd rfl rfl hformed.conditions
    hformed'.conditions hfilter hfilter' hread
  obtain ⟨horder, hlimit⟩ := Clauses.afterFilter_unique hd hkeys hkeys' hread
  exact ⟨hkind, hentity, hlimit, horder, hconditions⟩

/-- Two texts that differ in the case of names, in values and in `latest`. -/
theorem alike_of_statement_eq_values : ∃ q q' a a',
    Query.parse "show logs where (A = 'x' or b between today and 1) order by T limit 5 latest" =
      .ok q ∧
    Query.parse "show logs where (a = 'y' or B between today and 2) order by t limit 5" =
      .ok q' ∧
    q.compile .proton .parameterized (.midnight ⟨2024, 1, 1⟩) = .ok a ∧
    q'.compile .proton .parameterized (.midnight ⟨2025, 1, 1⟩) = .ok a' ∧
    a.statement = a'.statement ∧
    q.kind = q'.kind ∧ q.entity = q'.entity ∧ q.limit = q'.limit ∧
    List.Forall₂ Compiler.KeysAlike q.orderBy q'.orderBy ∧
    List.Forall₂ Condition.Alike q.conditions q'.conditions := by
  obtain ⟨q, a, hq, ha, hstatement⟩ := exists_of_statement? (show statement?
      "show logs where (A = 'x' or b between today and 1) order by T limit 5 latest"
      .proton .parameterized (.midnight ⟨2024, 1, 1⟩) = some
      "SELECT * FROM table(logs) WHERE (a = $1 OR b BETWEEN today() AND $2) ORDER BY t ASC LIMIT 5"
      by decide +kernel)
  obtain ⟨q', a', hq', ha', hstatement'⟩ := exists_of_statement? (show statement?
      "show logs where (a = 'y' or B between today and 2) order by t limit 5"
      .proton .parameterized (.midnight ⟨2025, 1, 1⟩) = some
      "SELECT * FROM table(logs) WHERE (a = $1 OR b BETWEEN today() AND $2) ORDER BY t ASC LIMIT 5"
      by decide +kernel)
  have heq : a.statement = a'.statement := hstatement.trans hstatement'.symm
  exact ⟨q, q', a, a', hq, hq', ha, ha', heq,
    alike_of_statement_eq (by decide) _ _ hq hq' ha ha' heq⟩

end Query

end NetQuery
