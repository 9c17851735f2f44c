import NetQuery.Proofs.Pieces

/-!
# Placeholders

With parameters, a statement has placeholders in the places of its values. Here a reader finds them
again in the text alone: a placeholder is a mark and the longest run of digits after it. The reader
finds the placeholders that were written and no others, in order and numbered from one, so the values
can be put back in their places, and that gives the statement with its values written out.
-/

namespace NetQuery

/-! ## Reading placeholders -/

/-- A part of a text that holds placeholders. -/
inductive Segment where
  /-- A character that belongs to no placeholder. -/
  | char (c : Char)
  /-- A placeholder, with the digits of its number. -/
  | placeholder (digits : List Char)

namespace PlaceholderStyle

/-- The digits of the placeholder that a text starts with; none if it starts with no placeholder. -/
def digitsAt (style : PlaceholderStyle) (cs : List Char) : List Char :=
  if style.mark.toList.isPrefixOf cs then
    (cs.drop style.mark.toList.length).takeWhile Number.isDigit
  else []

/-- The segments of a text after the characters that an earlier placeholder has taken. -/
def segments (style : PlaceholderStyle) : (taken : Nat) → List Char → List Segment
  | _, [] => []
  | taken + 1, _ :: cs => segments style taken cs
  | 0, c :: cs =>
    match style.digitsAt (c :: cs) with
    | [] => .char c :: segments style 0 cs
    | digits =>
      .placeholder digits :: segments style (style.mark.toList.length + digits.length - 1) cs

/-- The numbers of the placeholders in a text, from left to right. -/
def placeholders (style : PlaceholderStyle) (text : String) : List Nat :=
  (style.segments 0 text.toList).filterMap fun
    | .char _ => none
    | .placeholder digits => some (Number.value digits)

end PlaceholderStyle

/-- A segment with the literal of its value, if it is a placeholder and there is such a value.
Values are counted from one. -/
def Dialect.replace (d : Dialect) (params : List Param) : Segment → List Char
  | .char c => [c]
  | .placeholder digits =>
    match Number.value digits with
    | 0 => d.placeholderStyle.mark.toList ++ digits
    | i + 1 =>
      match params[i]? with
      | some param => (d.literal param).toList
      | none => d.placeholderStyle.mark.toList ++ digits

/-- The text with all its placeholders replaced at once by the literals of their values. -/
def Dialect.substitute (d : Dialect) (params : List Param) (text : String) : String :=
  String.ofList ((d.placeholderStyle.segments 0 text.toList).flatMap (d.replace params))

namespace PlaceholderStyle

variable (style : PlaceholderStyle)

theorem segments_eq_drop (taken : Nat) (cs : List Char) :
    style.segments taken cs = style.segments 0 (cs.drop taken) := by
  induction cs generalizing taken with
  | nil => cases taken <;> simp [segments]
  | cons c cs ih =>
    cases taken with
    | zero => rfl
    | succ taken => rw [segments, ih, List.drop_succ_cons]

/-- A mark starts with a character that is neither plain nor a digit. -/
theorem exists_mark : ∃ m ms, style.mark.toList = m :: ms ∧ isPlain m = false ∧
    Number.isDigit m = false := by
  cases style with
  | dollar => exact ⟨'$', [], rfl, by decide +kernel, by decide⟩
  | «at» => exact ⟨'@', ['p'], rfl, by decide +kernel, by decide⟩

/-- A plain character starts no placeholder. -/
theorem digitsAt_plain {c : Char} (hc : isPlain c) (cs : List Char) :
    style.digitsAt (c :: cs) = [] := by
  obtain ⟨m, ms, hmark, hplain, -⟩ := style.exists_mark
  have hne : m ≠ c := by
    rintro rfl
    rw [hc] at hplain
    exact absurd hplain (by decide)
  rw [digitsAt, hmark, List.isPrefixOf_cons_cons, beq_false_of_ne hne]
  rfl

/-- Plain text has no placeholders, whatever follows it. -/
theorem segments_plain {text : List Char} (h : ∀ c ∈ text, isPlain c) (cs : List Char) :
    style.segments 0 (text ++ cs) = text.map .char ++ style.segments 0 cs := by
  induction text with
  | nil => rfl
  | cons c text ih =>
    have hc : isPlain c := h c List.mem_cons_self
    rw [List.cons_append, segments, digitsAt_plain style hc]
    simp only [List.map_cons, List.cons_append]
    rw [ih fun d hd => h d (List.mem_cons_of_mem _ hd)]

/-- A mark with digits is one placeholder, if the text after it starts with no digit. -/
theorem segments_placeholder {digits cs : List Char} (hne : digits ≠ [])
    (hdigits : ∀ c ∈ digits, Number.isDigit c) (hcs : ∀ c ∈ cs.head?, Number.isDigit c = false) :
    style.segments 0 (style.mark.toList ++ digits ++ cs) =
      .placeholder digits :: style.segments 0 cs := by
  have hrun : (digits ++ cs).takeWhile Number.isDigit = digits :=
    Text.takeWhile_append_of_stop hdigits hcs
  have hat : style.digitsAt (style.mark.toList ++ (digits ++ cs)) = digits := by
    rw [digitsAt, if_pos (List.isPrefixOf_iff_prefix.2 (List.prefix_append _ _)), List.drop_left,
      hrun]
  obtain ⟨m, ms, hmark, -, -⟩ := style.exists_mark
  obtain ⟨d, ds, rfl⟩ := List.exists_cons_of_ne_nil hne
  have hlength : style.mark.toList.length = ms.length + 1 := by rw [hmark, List.length_cons]
  have hdrop : (ms ++ (d :: ds ++ cs)).drop (ms.length + (d :: ds).length) = cs := by
    rw [← List.append_assoc, ← List.length_append, List.drop_left]
  -- The step itself takes the first character of the mark, and `taken` counts the others.
  rw [hmark, List.cons_append] at hat
  rw [hmark, List.append_assoc, List.cons_append, segments, hat]
  simp only
  rw [segments_eq_drop, hlength]
  have hcount : ms.length + 1 + (d :: ds).length - 1 = ms.length + (d :: ds).length := by omega
  rw [hcount, hdrop]

end PlaceholderStyle

/-! ## The placeholders of a statement -/

namespace Piece

/-- The segments of a statement in pieces. -/
def segments : (number : Nat) → List Piece → List Segment
  | _, [] => []
  | number, .text s :: rest => s.toList.map .char ++ segments number rest
  | number, .param _ :: rest => .placeholder (Nat.toDigits 10 number) :: segments (number + 1) rest

variable {d : Dialect} {ps : List Piece}

theorem toList_placeholder (d : Dialect) (number : Nat) :
    (d.placeholder number).toList = d.placeholderStyle.mark.toList ++ Nat.toDigits 10 number := by
  simp [Dialect.placeholder]

/-- What follows a placeholder starts with no digit. -/
theorem isDigit_head_numbered (h : ∀ p ∈ ps, p.IsNeat) (number : Nat) :
    ∀ c ∈ (numbered d number ps).toList.head?, Number.isDigit c = false := by
  intro c hc
  cases ps with
  | nil => simp [numbered] at hc
  | cons p ps =>
    cases p with
    | text s =>
      have hs : Neat s := h (.text s) List.mem_cons_self
      rw [numbered, String.toList_append, List.head?_append_of_ne_nil _ hs.ne_nil] at hc
      exact hs.start c hc
    | param p =>
      obtain ⟨m, ms, hmark, -, hdigit⟩ := d.placeholderStyle.exists_mark
      rw [numbered, String.toList_append, toList_placeholder, hmark] at hc
      obtain rfl : m = c := by simpa using hc
      exact hdigit

/-- The reader finds the pieces again. -/
theorem segments_numbered (h : ∀ p ∈ ps, p.IsNeat) (number : Nat) :
    d.placeholderStyle.segments 0 (numbered d number ps).toList = segments number ps := by
  induction ps generalizing number with
  | nil => simp [numbered, segments, PlaceholderStyle.segments]
  | cons p ps ih =>
    have htail : ∀ p ∈ ps, p.IsNeat := fun q hq => h q (List.mem_cons_of_mem _ hq)
    cases p with
    | text s =>
      have hs : Neat s := h (.text s) List.mem_cons_self
      rw [numbered, String.toList_append, PlaceholderStyle.segments_plain _ hs.plain, ih htail,
        segments]
    | param p =>
      have hdigits : ∀ c ∈ Nat.toDigits 10 number, Number.isDigit c := fun c hc =>
        Nat.isDigit_of_mem_toDigits (by decide) (by decide) hc
      rw [numbered, String.toList_append, toList_placeholder,
        PlaceholderStyle.segments_placeholder _ Nat.toDigits_ne_nil hdigits
          (isDigit_head_numbered htail _), ih htail, segments]

theorem value_toDigits (n : Nat) : Number.value (Nat.toDigits 10 n) = n :=
  Nat.ofDigitChars_ten_toDigits

/-- The placeholders of a statement are numbered one after the other. -/
theorem placeholders_numbered (h : ∀ p ∈ ps, p.IsNeat) (number : Nat) :
    d.placeholderStyle.placeholders (numbered d number ps) =
      List.range' number (params ps).length := by
  rw [PlaceholderStyle.placeholders, segments_numbered h]
  clear h
  induction ps generalizing number with
  | nil => rfl
  | cons p ps ih =>
    cases p with
    | text s =>
      rw [segments, List.filterMap_append, ih, params]
      simp
    | param p =>
      rw [segments, List.filterMap_cons]
      simp only [value_toDigits]
      rw [ih, params, List.length_cons, List.range'_succ]

/-- With the values put back, a statement with placeholders is the one with its values written
out. The values before the given number belong to placeholders further left. -/
theorem substitute_numbered (h : ∀ p ∈ ps, p.IsNeat) (before : List Param) :
    d.substitute (before ++ params ps) (numbered d (before.length + 1) ps) = embedded d ps := by
  rw [Dialect.substitute, segments_numbered h, ← String.toList_inj, String.toList_ofList]
  clear h
  induction ps generalizing before with
  | nil => rfl
  | cons p ps ih =>
    cases p with
    | text s =>
      rw [segments, List.flatMap_append, params, ih, embedded, String.toList_append]
      simp [List.flatMap_map, Dialect.replace]
    | param p =>
      -- The value of this placeholder is the first one after `before`.
      have ih' := ih (before ++ [p])
      rw [List.length_append, List.length_singleton, List.append_assoc, List.singleton_append] at ih'
      have hreplace : d.replace (before ++ p :: params ps)
          (.placeholder (Nat.toDigits 10 (before.length + 1))) = (d.literal p).toList := by
        simp [Dialect.replace, value_toDigits]
      rw [segments, List.flatMap_cons, params, hreplace, ih', embedded, String.toList_append]

end Piece

namespace Query

/-- The statement of a text that can be read and compiled. -/
def statement? (text : String) (backend : Backend) (mode : Mode) (now : Time.Timestamp) :
    Option String :=
  match Query.parse text with
  | .error _ => none
  | .ok q =>
    match q.compile backend mode now with
    | .error _ => none
    | .ok a => some a.statement

theorem exists_of_statement? {text statement : String} {backend : Backend} {mode : Mode}
    {now : Time.Timestamp} (h : statement? text backend mode now = some statement) :
    ∃ q a, Query.parse text = .ok q ∧ q.compile backend mode now = .ok a ∧
      a.statement = statement := by
  unfold statement? at h
  split at h
  next => cases h
  next q hq =>
    split at h
    next => cases h
    next a ha => exact ⟨q, a, hq, ha, Option.some.inj h⟩

/-- The two modes say the same. They fail with the same error; and where they succeed, the literals
of the values, put in the places of the placeholders, turn one statement into the other. -/
theorem compile_literal_eq_substitute {text : String} {q : Query} (hq : Query.parse text = .ok q)
    (page : Option Page) (backend : Backend) (now : Time.Timestamp) :
    (∀ e, Query.compile { q with page := page } backend .literal now = .error e ↔
      Query.compile { q with page := page } backend .parameterized now = .error e) ∧
    ∀ a b, Query.compile { q with page := page } backend .parameterized now = .ok a →
      Query.compile { q with page := page } backend .literal now = .ok b →
      b.params = [] ∧ b.viz = a.viz ∧ b.pages = a.pages ∧
        b.statement = backend.dialect.substitute a.params a.statement := by
  have hnamed := Query.named_of_parse hq page
  constructor
  · intro e
    rw [compile_eq_error_iff, compile_eq_error_iff]
  · intro a b ha hb
    obtain ⟨ps, hps, rfl⟩ := compile_eq_ok_iff.1 ha
    obtain ⟨qs, hqs, rfl⟩ := compile_eq_ok_iff.1 hb
    obtain rfl : ps = qs := Except.ok.inj (hps.symm.trans hqs)
    refine ⟨rfl, rfl, rfl, ?_⟩
    exact (Piece.substitute_numbered (hnamed.pieces_isNeat hps) []).symm

/-- A value that looks like a placeholder is not taken for one. -/
theorem compile_literal_eq_substitute_marks : ∃ q a b,
    Query.parse "show logs where a = '$2' or b = 'x'" = .ok q ∧
    Query.compile { q with page := q.page } .clickHouse .parameterized
      (.midnight ⟨2024, 1, 1⟩) = .ok a ∧
    Query.compile { q with page := q.page } .clickHouse .literal
      (.midnight ⟨2024, 1, 1⟩) = .ok b ∧
    a.statement = "SELECT * FROM logs WHERE a = $1 OR b = $2" ∧
    b.statement = "SELECT * FROM logs WHERE a = '$2' OR b = 'x'" ∧
    b.statement = Backend.clickHouse.dialect.substitute a.params a.statement := by
  obtain ⟨q, a, hq, ha, hparameterized⟩ := exists_of_statement?
    (show statement? "show logs where a = '$2' or b = 'x'" .clickHouse .parameterized
      (.midnight ⟨2024, 1, 1⟩) = some "SELECT * FROM logs WHERE a = $1 OR b = $2" by decide +kernel)
  obtain ⟨q', b, hq', hb, hliteral⟩ := exists_of_statement?
    (show statement? "show logs where a = '$2' or b = 'x'" .clickHouse .literal
      (.midnight ⟨2024, 1, 1⟩) = some "SELECT * FROM logs WHERE a = '$2' OR b = 'x'"
      by decide +kernel)
  obtain rfl : q = q' := Except.ok.inj (hq.symm.trans hq')
  obtain ⟨-, -, -, hsubstitute⟩ :=
    (compile_literal_eq_substitute hq q.page .clickHouse (.midnight ⟨2024, 1, 1⟩)).2 a b ha hb
  exact ⟨q, a, b, hq, ha, hb, hparameterized, hliteral, hsubstitute⟩

end Query

/-! ## The values of a statement -/

/-- A scalar that a dialect has a word for. -/
def Value.isNative (d : Dialect) : Value → Bool
  | .keyword word => (d.dateKeyword word).isSome
  | _ => false

/-- The values that a comparison may add to a statement: none for a null check, one array for a
membership, and otherwise one for each scalar that the dialect has no word for. -/
def Comparison.Contributes (d : Dialect) (c : Comparison) (params : List Param) : Prop :=
  match c.operator with
  | .isNull | .isNotNull => params = []
  | .isIn => ∃ param, params = [param] ∧ (param.type = .textArray ∨ param.type = .intArray)
  | .between => params.length = (c.value.scalars.filter fun v => !v.isNative d).length ∧
      params.length ≤ 2
  | .compare _ | .like | .contains => params.length = if c.value.isNative d then 0 else 1

namespace Compiler

variable {backend : Backend} {ctx : Context} {field : RenderedField}

/-- A backend that takes dates from the text of a timestamp has no words for days. -/
theorem dateKeyword_eq_none {f name : String} {start length : Nat}
    (h : backend.dialect.function f = some (.datePart name start length)) (k : DateKeyword) :
    backend.dialect.dateKeyword k = none := by
  cases backend with
  | clickHouse =>
    simp only [Backend.dialect, Dialect.clickHouse, Dialect.sql] at h
    split at h <;> cases h
  | proton =>
    simp only [Backend.dialect, Dialect.proton, Dialect.sql] at h
    split at h <;> cases h
  | arangoDb => rfl

theorem Scalar.length_params (hctx : ctx.dialect = backend.dialect) {f : String}
    (hfield : Rendering ctx f field) {value : Value} {ps : List Piece}
    (h : Scalar ctx field value ps) :
    (Piece.params ps).length = if value.isNative backend.dialect then 0 else 1 := by
  cases h with
  | native _ hword =>
    rw [hctx] at hword
    simp [Value.isNative, hword, Piece.params]
  | @date keyword h =>
    have hnone : backend.dialect.dateKeyword keyword = none := by
      rcases h with hpart | hnone
      · cases hfield with
        | column => cases hpart
        | call => cases hpart
        | datePart _ _ hword => exact dateKeyword_eq_none (hctx ▸ hword) keyword
      · exact hctx ▸ hnone
    simp [Value.isNative, hnone, Piece.params]
  | bound hkind =>
    have hnative : value.isNative backend.dialect = false := by
      cases value with
      | keyword => exact absurd rfl hkind
      | _ => rfl
    simp [hnative, Piece.params]

theorem params_fill (template : Template) (operand upper : List Piece) :
    Piece.params (fill template field operand upper) =
      (template.filter Slot.isOperand).flatMap fun
        | .operand => Piece.params operand
        | .upper => Piece.params upper
        | _ => [] := by
  induction template with
  | nil => rfl
  | cons slot template ih =>
    have hcons : fill (slot :: template) field operand upper =
        (fill [slot] field operand upper) ++ fill template field operand upper := by
      simp [fill, Template.fill]
    rw [hcons, Piece.params_append, ih]
    cases slot <;> simp [fill, Template.fill, Piece.params, Slot.isOperand, List.filter_cons]

/-- What one comparison adds to the values of a statement. -/
theorem comparison_contributes (hctx : ctx.dialect = backend.dialect) {c : Comparison}
    {ps : List Piece} (hf : IsField c.field) (h : comparison ctx c = .ok ps) :
    c.Contributes backend.dialect (Piece.params ps) := by
  obtain ⟨field, operand, upper, hfield, -, hoperands, rfl⟩ := comparison_cases h
  have hrendering := renderField_cases hf hfield
  rw [params_fill, hctx, filter_template]
  unfold Comparison.Contributes
  obtain ⟨f, op, value⟩ := c
  cases hoperands with
  | isNull => rfl
  | isNotNull => rfl
  | compare _ hscalar => simpa [Operator.slots] using hscalar.length_params hctx hrendering
  | like hscalar => simpa [Operator.slots] using hscalar.length_params hctx hrendering
  | contains hscalar => simpa [Operator.slots] using hscalar.length_params hctx hrendering
  | @isIn items param hlist =>
    refine ⟨param, rfl, ?_⟩
    rcases bindList_cases hlist with ⟨_, _, -, rfl⟩ | ⟨_, -, rfl⟩
    · exact Or.inl rfl
    · exact Or.inr rfl
  | @between low high lower upper hlow hhigh =>
    have hlower := hlow.length_params hctx hrendering
    have hupper := hhigh.length_params hctx hrendering
    simp only [Operator.slots, List.flatMap_cons, List.flatMap_nil, List.append_nil,
      List.length_append, hlower, hupper, Value.scalars, List.filter_cons, List.filter_nil]
    split <;> split <;> simp_all

end Compiler

namespace Query

variable {q : Query} {backend : Backend} {now : Time.Timestamp}

/-- The values of a statement are those of its conditions. -/
theorem pieces_joins {ps : List Piece} (h : q.pieces backend now = .ok ps) :
    ∃ qs, Compiler.Joins (q.context backend now) (comparisonsOf q.conditions) qs ∧
      Piece.params ps = Piece.params qs := by
  obtain ⟨source, offset, filter, order, -, -, hfilter, -, rfl⟩ := pieces_eq_ok_iff.1 h
  rw [Clauses.params_statement]
  rcases Compiler.filter_eq_ok_iff.1 hfilter with ⟨hnil, rfl⟩ | ⟨-, qs, hqs, rfl⟩
  · rw [hnil]
    exact ⟨[], Compiler.chain_joins rfl, rfl⟩
  · exact ⟨qs, Compiler.chain_joins hqs, rfl⟩

/-- A comparison of a query that compiles also compiles as its only condition. -/
theorem compile_single {ps qs : List Piece} {c : Comparison} (h : q.pieces backend now = .ok ps)
    (hc : Compiler.comparison (q.context backend now) c = .ok qs) :
    ∃ a, Query.compile { q with conditions := [.compare .first c] } backend .parameterized now =
      .ok a ∧ a.params = Piece.params qs := by
  obtain ⟨source, offset, filter, order, hsource, hoffset, -, horder, rfl⟩ :=
    pieces_eq_ok_iff.1 h
  have hchain : Compiler.chain (q.context backend now) [.compare .first c] = .ok qs := by
    refine Compiler.chain_cons_eq_ok_iff.2 ⟨qs, [], ?_, rfl, List.append_nil qs⟩
    exact Compiler.condition_compare_eq_ok_iff.2 ⟨qs, hc, rfl⟩
  have hfilter : Compiler.filter (q.context backend now) [.compare .first c] = .ok (some qs) :=
    Compiler.filter_eq_ok_iff.2 (Or.inr ⟨by simp, qs, hchain, rfl⟩)
  have hpieces := pieces_eq_ok_iff (q := { q with conditions := [.compare .first c] }) |>.2
    ⟨source, offset, some qs, order, hsource, hoffset, hfilter, horder, rfl⟩
  refine ⟨_, compile_eq_ok_iff.2 ⟨_, hpieces, rfl⟩, ?_⟩
  exact Clauses.params_statement _ _

/-- The placeholders of a statement are numbered from one, each once and in order, and its values
are those of its comparisons from left to right: each comparison adds what it would add as the only
condition of the query. -/
theorem params_eq_flatten_contributions {text : String} {q : Query} {a : Artifact}
    (hq : Query.parse text = .ok q) (backend : Backend) (now : Time.Timestamp)
    (ha : q.compile backend .parameterized now = .ok a) :
    backend.dialect.placeholderStyle.placeholders a.statement = List.range' 1 a.params.length ∧
    ∃ contributions : List (List Param),
      List.Forall₂ (fun c params => c.Contributes backend.dialect params ∧
        ∃ b, Query.compile { q with conditions := [.compare .first c] } backend .parameterized now =
          .ok b ∧ b.params = params) (comparisonsOf q.conditions) contributions ∧
      a.params = contributions.flatten := by
  have hnamed := (Query.parse_formed hq).named
  obtain ⟨ps, hps, rfl⟩ := compile_eq_ok_iff.1 ha
  obtain ⟨qs, ⟨pss, hpss, hparams, -⟩, heq⟩ := pieces_joins hps
  refine ⟨Piece.placeholders_numbered (hnamed.pieces_isNeat hps) 1, pss.map Piece.params, ?_,
    heq.trans hparams⟩
  rw [List.forall₂_map_right_iff]
  -- The query stays as it is while its comparisons are taken one by one.
  have hfields := hnamed.conditions
  generalize comparisonsOf q.conditions = cs at hpss hfields
  clear ha heq hparams
  induction hpss with
  | nil => exact .nil
  | cons hc _ ih =>
    refine .cons ⟨?_, compile_single hps hc⟩ (ih fun c hc => hfields c (List.mem_cons_of_mem _ hc))
    exact Compiler.comparison_contributes rfl (hfields _ List.mem_cons_self) hc

/-- A group, a range of which one bound is a word of the backend, a null check and a list. -/
theorem params_eq_flatten_contributions_nested : ∃ q a,
    Query.parse
      "count logs where (a = 'x' or b between today and 'y') and c is null and d in (1)" = .ok q ∧
    q.compile .clickHouse .parameterized (.midnight ⟨2024, 1, 1⟩) = .ok a ∧
    a.statement =
      "SELECT COUNT(*) FROM logs WHERE (a = $1 OR b BETWEEN today() AND $2) AND c IS NULL AND d IN $3" ∧
    PlaceholderStyle.dollar.placeholders a.statement = List.range' 1 a.params.length ∧
    ∃ contributions, List.Forall₂ (fun c params => c.Contributes Backend.clickHouse.dialect params)
      (comparisonsOf q.conditions) contributions ∧ a.params = contributions.flatten := by
  obtain ⟨q, a, hq, ha, hstatement⟩ := exists_of_statement? (show statement?
      "count logs where (a = 'x' or b between today and 'y') and c is null and d in (1)"
      .clickHouse .parameterized (.midnight ⟨2024, 1, 1⟩) = some
      "SELECT COUNT(*) FROM logs WHERE (a = $1 OR b BETWEEN today() AND $2) AND c IS NULL AND d IN $3"
      by decide +kernel)
  obtain ⟨hnumbers, contributions, hcontributions, hparams⟩ :=
    params_eq_flatten_contributions hq .clickHouse (.midnight ⟨2024, 1, 1⟩) ha
  exact ⟨q, a, hq, ha, hstatement, hnumbers, contributions,
    hcontributions.imp fun _ _ h => h.1, hparams⟩

end Query

end NetQuery
