import NetQuery.Proofs.Placeholders

/-!
# What a statement with parameters shows

An executor runs the statement with parameters, and the values travel beside it. Two facts say what a
reader can put into that statement. The first compares two runs: queries that differ in nothing but
their values have the same statement, because a value leaves a hole in the pieces whatever it is.
The second is about one run: all characters of the statement come from a small alphabet, in which
there is nothing to end a text, a statement or a comment with.
-/

namespace NetQuery

/-! ## Queries without their values -/

/-- A scalar with its value taken out. A date keyword is no value and stays. -/
def Value.masked : Value → Value
  | .keyword word => .keyword word
  | _ => .null

/-- An operand with its values taken out: the bounds of a range one by one, and any other operand,
a list too, as a whole. -/
def Operator.mask : Operator → Value → Value
  | .between, .list [low, high] => .list [low.masked, high.masked]
  | _, value => value.masked

/-- A comparison with its values taken out. -/
def Comparison.masked (c : Comparison) : Comparison :=
  ⟨c.field, c.operator, c.operator.mask c.value⟩

mutual

/-- A condition with its values taken out. -/
def Condition.masked : Condition → Condition
  | .compare link c => .compare link c.masked
  | .group link members => .group link (maskedOf members)

/-- A chain of conditions with their values taken out. -/
def maskedOf : List Condition → List Condition
  | [] => []
  | c :: cs => c.masked :: maskedOf cs

end

/-- A query with its values taken out. -/
def Query.masked (q : Query) : Query := { q with conditions := maskedOf q.conditions }

/-! ## Pieces without their values -/

/-- A piece with its value taken out. -/
def Piece.frame : Piece → Option String
  | .text s => some s
  | .param _ => none

/-- A statement with placeholders shows where a value stands, but not which. -/
theorem Piece.numbered_eq_of_frame (d : Dialect) {ps qs : List Piece}
    (h : ps.map Piece.frame = qs.map Piece.frame) (number : Nat) :
    numbered d number ps = numbered d number qs := by
  induction ps generalizing qs number with
  | nil =>
    obtain rfl : qs = [] := by simpa using h.symm
    rfl
  | cons p ps ih =>
    obtain ⟨q, rest, rfl, hq, hrest⟩ := List.map_eq_cons_iff.1 h.symm
    have ih := ih hrest.symm
    cases p with
    | text s =>
      cases q with
      | text t =>
        obtain rfl : t = s := Option.some.inj hq
        rw [numbered, numbered, ih]
      | param _ => cases hq
    | param _ =>
      cases q with
      | text _ => cases hq
      | param _ => rw [numbered, numbered, ih]

theorem Value.masked_cases {v v' : Value} (h : v.masked = v'.masked) :
    (∃ word, v = .keyword word ∧ v' = .keyword word) ∨
      (v.kind ≠ .keyword ∧ v'.kind ≠ .keyword) := by
  by_cases hv : v.kind = .keyword
  · obtain ⟨word, rfl⟩ : ∃ word, v = .keyword word := by cases v <;> simp_all [Value.kind]
    left
    refine ⟨word, rfl, ?_⟩
    cases v' <;> simp_all [Value.masked]
  · right
    refine ⟨hv, fun hv' => ?_⟩
    obtain ⟨word, rfl⟩ : ∃ word, v' = .keyword word := by cases v' <;> simp_all [Value.kind]
    cases v <;> simp_all [Value.masked, Value.kind]

namespace Compiler

variable {ctx : Context} {field : RenderedField}

theorem Scalar.map_frame_of_ne {v : Value} {ps : List Piece} (h : Scalar ctx field v ps)
    (hv : v.kind ≠ .keyword) : ps.map Piece.frame = [none] := by
  cases h with
  | native => exact absurd rfl hv
  | date => exact absurd rfl hv
  | bound => rfl

/-- A scalar is a native word, which follows from the keyword and the field, or a hole. -/
theorem Scalar.map_frame {v v' : Value} {ps ps' : List Piece} (h : Scalar ctx field v ps)
    (h' : Scalar ctx field v' ps') (hmask : v.masked = v'.masked) :
    ps.map Piece.frame = ps'.map Piece.frame := by
  rcases Value.masked_cases hmask with ⟨word, rfl, rfl⟩ | ⟨hv, hv'⟩
  · cases h with
    | native hpart hword =>
      cases h' with
      | native _ hword' => rw [Option.some.inj (hword.symm.trans hword')]
      | date hnone => simp [hpart, hword] at hnone
      | bound hkind => exact absurd rfl hkind
    | date hnone =>
      cases h' with
      | native hpart hword => simp [hpart, hword] at hnone
      | date => rfl
      | bound hkind => exact absurd rfl hkind
    | bound hkind => exact absurd rfl hkind
  · rw [h.map_frame_of_ne hv, h'.map_frame_of_ne hv']

theorem Operands.map_frame {op : Operator} {v v' : Value} {operand operand' upper upper' : List Piece}
    (h : Operands ctx field op v operand upper) (h' : Operands ctx field op v' operand' upper')
    (hmask : op.mask v = op.mask v') :
    operand.map Piece.frame = operand'.map Piece.frame ∧
      upper.map Piece.frame = upper'.map Piece.frame := by
  cases h with
  | isNull => cases h'; exact ⟨rfl, rfl⟩
  | isNotNull => cases h'; exact ⟨rfl, rfl⟩
  | compare _ hscalar => cases h' with
    | compare _ hscalar' => exact ⟨hscalar.map_frame hscalar' hmask, rfl⟩
  | like hscalar => cases h' with
    | like hscalar' => exact ⟨hscalar.map_frame hscalar' hmask, rfl⟩
  | contains hscalar => cases h' with
    | contains hscalar' => exact ⟨hscalar.map_frame hscalar' hmask, rfl⟩
  | isIn => cases h'; exact ⟨rfl, rfl⟩
  | between hlow hhigh => cases h' with
    | between hlow' hhigh' =>
      -- A range is the one operand that is masked bound by bound.
      have hbounds := List.cons.inj (Value.list.inj hmask)
      exact ⟨hlow.map_frame hlow' hbounds.1,
        hhigh.map_frame hhigh' (List.cons.inj hbounds.2).1⟩

theorem map_frame_fill (template : Template) {operand operand' upper upper' : List Piece}
    (hoperand : operand.map Piece.frame = operand'.map Piece.frame)
    (hupper : upper.map Piece.frame = upper'.map Piece.frame) :
    (fill template field operand upper).map Piece.frame =
      (fill template field operand' upper').map Piece.frame := by
  induction template with
  | nil => rfl
  | cons slot template ih =>
    simp only [fill, Template.fill, List.flatMap_cons, List.map_append] at ih ⊢
    rw [ih]
    cases slot with
    | text s => rfl
    | field => rfl
    | operand => rw [hoperand]
    | upper => rw [hupper]

theorem comparison_frame {c c' : Comparison} {ps ps' : List Piece} (hmask : c.masked = c'.masked)
    (h : comparison ctx c = .ok ps) (h' : comparison ctx c' = .ok ps') :
    ps.map Piece.frame = ps'.map Piece.frame := by
  obtain ⟨f, op, v⟩ := c
  obtain ⟨f', op', v'⟩ := c'
  obtain ⟨rfl, rfl, hvalue⟩ : f = f' ∧ op = op' ∧ op.mask v = op'.mask v' := by
    simpa [Comparison.masked] using hmask
  obtain ⟨field, operand, upper, hfield, -, hoperands, rfl⟩ := comparison_cases h
  obtain ⟨field', operand', upper', hfield', -, hoperands', rfl⟩ := comparison_cases h'
  -- The field is rendered before its operand is looked at, so both sides have the same one.
  obtain rfl : field = field' := Except.ok.inj (hfield.symm.trans hfield')
  obtain ⟨hoperand, hupper⟩ := hoperands.map_frame hoperands' hvalue
  exact map_frame_fill _ hoperand hupper

mutual

theorem condition_frame {c c' : Condition} {ps ps' : List Piece} (hmask : c.masked = c'.masked)
    (h : condition ctx c = .ok ps) (h' : condition ctx c' = .ok ps') :
    ps.map Piece.frame = ps'.map Piece.frame := by
  cases c with
  | compare link c =>
    cases c' with
    | group => simp [Condition.masked] at hmask
    | compare link' c' =>
      obtain ⟨rfl, hc⟩ : link = link' ∧ c.masked = c'.masked := by
        simpa [Condition.masked] using hmask
      obtain ⟨qs, hqs, rfl⟩ := condition_compare_eq_ok_iff.1 h
      obtain ⟨qs', hqs', rfl⟩ := condition_compare_eq_ok_iff.1 h'
      rw [List.map_append, List.map_append, comparison_frame hc hqs hqs']
  | group link members =>
    cases c' with
    | compare => simp [Condition.masked] at hmask
    | group link' members' =>
      obtain ⟨rfl, hmembers⟩ : link = link' ∧ maskedOf members = maskedOf members' := by
        simpa [Condition.masked] using hmask
      obtain ⟨qs, hqs, rfl⟩ := condition_group_eq_ok_iff.1 h
      obtain ⟨qs', hqs', rfl⟩ := condition_group_eq_ok_iff.1 h'
      have hinside := chain_frame hmembers hqs hqs'
      simp only [List.map_append, List.map_cons, hinside]

theorem chain_frame {cs cs' : List Condition} {ps ps' : List Piece}
    (hmask : maskedOf cs = maskedOf cs') (h : chain ctx cs = .ok ps)
    (h' : chain ctx cs' = .ok ps') : ps.map Piece.frame = ps'.map Piece.frame := by
  cases cs with
  | nil =>
    cases cs' with
    | nil => rw [Except.ok.inj (h.symm.trans h')]
    | cons => simp [maskedOf] at hmask
  | cons c cs =>
    cases cs' with
    | nil => simp [maskedOf] at hmask
    | cons c' cs' =>
      obtain ⟨hc, hcs⟩ : c.masked = c'.masked ∧ maskedOf cs = maskedOf cs' := by
        simpa [maskedOf] using hmask
      obtain ⟨qs, rs, hqs, hrs, rfl⟩ := chain_cons_eq_ok_iff.1 h
      obtain ⟨qs', rs', hqs', hrs', rfl⟩ := chain_cons_eq_ok_iff.1 h'
      rw [List.map_append, List.map_append, condition_frame hc hqs hqs', chain_frame hcs hrs hrs']

end

theorem filter_frame {cs cs' : List Condition} {filter filter' : Option (List Piece)}
    (hmask : maskedOf cs = maskedOf cs') (h : Compiler.filter ctx cs = .ok filter)
    (h' : Compiler.filter ctx cs' = .ok filter') :
    filter.map (List.map Piece.frame) = filter'.map (List.map Piece.frame) := by
  have hnil : cs = [] ↔ cs' = [] := by
    cases cs <;> cases cs' <;> simp_all [maskedOf]
  rcases filter_eq_ok_iff.1 h with ⟨hcs, rfl⟩ | ⟨hcs, ps, hps, rfl⟩
  · rcases filter_eq_ok_iff.1 h' with ⟨_, rfl⟩ | ⟨hcs', _⟩
    · rfl
    · exact absurd (hnil.1 hcs) hcs'
  · rcases filter_eq_ok_iff.1 h' with ⟨hcs', _⟩ | ⟨_, ps', hps', rfl⟩
    · exact absurd (hnil.2 hcs') hcs
    · rw [Option.map_some, Option.map_some, chain_frame hmask hps hps']

end Compiler

/-- The clauses around a filter add the same text to it, whatever its values are. -/
theorem Clauses.map_frame_statement (c : Clauses) {filter : Option (List Piece)}
    (h : c.filter.map (List.map Piece.frame) = filter.map (List.map Piece.frame)) (shape : Shape) :
    (c.statement shape).map Piece.frame =
      (Clauses.statement { c with filter := filter } shape).map Piece.frame := by
  cases hfilter : c.filter with
  | none =>
    obtain rfl : filter = none := by simpa [hfilter] using h.symm
    rw [← hfilter]
  | some ps =>
    rw [hfilter] at h
    obtain ⟨qs, rfl, hqs⟩ := Option.map_eq_some_iff.1 h.symm
    cases shape with
    | sql countProjection => simp [Clauses.statement, Clauses.sql, hfilter, hqs]
    | document binder separator =>
      cases hkind : c.kind <;>
        simp [Clauses.statement, Clauses.document, hfilter, hkind, hqs]

namespace Query

variable {q q' : Query} {backend : Backend} {now : Time.Timestamp}

/-- In a statement with parameters no value shows: two queries that differ only in their values have
the same statement, if both compile. -/
theorem statement_eq_of_masked_eq {a a' : Artifact} (hmask : q.masked = q'.masked)
    (ha : q.compile backend .parameterized now = .ok a)
    (ha' : q'.compile backend .parameterized now = .ok a') : a.statement = a'.statement := by
  obtain ⟨kind, entity, conditions, orderBy, limit, latest, page⟩ := q
  obtain ⟨kind', entity', conditions', orderBy', limit', latest', page'⟩ := q'
  simp only [masked, Query.mk.injEq] at hmask
  obtain ⟨rfl, rfl, hconditions, rfl, rfl, rfl, rfl⟩ := hmask
  obtain ⟨ps, hps, rfl⟩ := compile_eq_ok_iff.1 ha
  obtain ⟨ps', hps', rfl⟩ := compile_eq_ok_iff.1 ha'
  obtain ⟨source, offset, filter, order, hsource, hoffset, hfilter, horder, rfl⟩ :=
    pieces_eq_ok_iff.1 hps
  obtain ⟨source', offset', filter', order', hsource', hoffset', hfilter', horder', rfl⟩ :=
    pieces_eq_ok_iff.1 hps'
  -- Source, offset and ordering do not read the conditions: they are the same on both sides.
  obtain rfl : source = source' := Option.some.inj (hsource.symm.trans hsource')
  obtain rfl : offset = offset' := Except.ok.inj (hoffset.symm.trans hoffset')
  obtain rfl : order = order' := Except.ok.inj (horder.symm.trans horder')
  have hframe := Compiler.filter_frame hconditions hfilter hfilter'
  exact Piece.numbered_eq_of_frame _ (Clauses.map_frame_statement
    ⟨kind, source, filter, order, _, offset⟩ hframe backend.dialect.shape) 1

/-- A text that tries to end its literal, and a range with a keyword that stays. -/
theorem statement_eq_of_masked_eq_injection : ∃ q q' : Query, ∃ a a' : Artifact,
    q.conditions = [.compare .first ⟨"a", .compare .eq, .text "x"⟩,
      .group .or [.compare .first ⟨"b", .between, .list [.keyword .today, .int 5]⟩]] ∧
    q'.conditions = [.compare .first ⟨"a", .compare .eq, .text "' OR 1=1; --"⟩,
      .group .or [.compare .first ⟨"b", .between, .list [.keyword .today, .text "$1"]⟩]] ∧
    q.masked = q'.masked ∧
    q.compile .proton .parameterized (.midnight ⟨2024, 1, 1⟩) = .ok a ∧
    q'.compile .proton .parameterized (.midnight ⟨2024, 1, 1⟩) = .ok a' ∧
    a.statement =
      "SELECT * FROM table(logs) WHERE a = $1 OR (b BETWEEN today() AND $2) LIMIT 7" ∧
    a.statement = a'.statement := by
  obtain ⟨a, ha, hstatement⟩ := toOption_map_eq_some_iff.1 (show (Query.compile
    ⟨.records, .logs, [.compare .first ⟨"a", .compare .eq, .text "x"⟩,
      .group .or [.compare .first ⟨"b", .between, .list [.keyword .today, .int 5]⟩]], [], some 7,
      false, none⟩ .proton .parameterized (.midnight ⟨2024, 1, 1⟩)).toOption.map
      Artifact.statement = some
      "SELECT * FROM table(logs) WHERE a = $1 OR (b BETWEEN today() AND $2) LIMIT 7"
    by decide +kernel)
  obtain ⟨a', ha', -⟩ := toOption_map_eq_some_iff.1 (show (Query.compile
    ⟨.records, .logs, [.compare .first ⟨"a", .compare .eq, .text "' OR 1=1; --"⟩,
      .group .or [.compare .first ⟨"b", .between, .list [.keyword .today, .text "$1"]⟩]], [],
      some 7, false, none⟩ .proton .parameterized (.midnight ⟨2024, 1, 1⟩)).toOption.map
      Artifact.statement = some
      "SELECT * FROM table(logs) WHERE a = $1 OR (b BETWEEN today() AND $2) LIMIT 7"
    by decide +kernel)
  refine ⟨_, _, a, a', ?_, ?_, ?_, ha, ha', hstatement, statement_eq_of_masked_eq ?_ ha ha'⟩
  all_goals rfl

end Query

/-! ## The alphabet of a statement -/

/-- The characters of a statement are plain, or they belong to the mark of a placeholder. -/
theorem Piece.mem_numbered {d : Dialect} {ps : List Piece} (h : ∀ p ∈ ps, p.IsNeat) (number : Nat)
    {c : Char} (hc : c ∈ (numbered d number ps).toList) :
    isPlain c ∨ c ∈ d.placeholderStyle.mark.toList := by
  induction ps generalizing number with
  | nil => simp [numbered] at hc
  | cons p ps ih =>
    have htail : ∀ p ∈ ps, p.IsNeat := fun q hq => h q (List.mem_cons_of_mem _ hq)
    cases p with
    | text s =>
      have hs : Neat s := h (.text s) List.mem_cons_self
      rw [numbered, String.toList_append] at hc
      rcases List.mem_append.1 hc with hc | hc
      · exact Or.inl (hs.plain c hc)
      · exact ih htail number hc
    | param p =>
      rw [numbered, Dialect.placeholder, String.toList_append, String.toList_append] at hc
      rcases List.mem_append.1 hc with hc | hc
      · rcases List.mem_append.1 hc with hc | hc
        · exact Or.inr hc
        · exact Or.inl (plain_toString number c hc)
      · exact ih htail (number + 1) hc

/-- Letters, numerals, and the few signs that a statement is put together with. -/
def isShown (c : Char) : Bool :=
  Text.isLetterOrNumeral c || " \n_.,()*=!<>$@".toList.contains c

theorem isShown_of_isPlain {c : Char} (h : isPlain c) : isShown c := by
  simp only [isPlain, Lexer.continuesWord, Bool.or_eq_true, decide_eq_true_eq] at h
  rcases h with ((hletter | rfl) | rfl) | hsign
  · simp [isShown, hletter]
  · decide
  · decide
  · simp only [List.contains_eq_mem, List.mem_cons, List.not_mem_nil, or_false,
      decide_eq_true_eq] at hsign
    rcases hsign with rfl | rfl | rfl | rfl | rfl | rfl | rfl | rfl | rfl | rfl <;> decide

theorem isShown_of_mem_mark {style : PlaceholderStyle} {c : Char} (h : c ∈ style.mark.toList) :
    isShown c := by
  have hall : style.mark.toList.all isShown := by cases style <;> decide +kernel
  exact List.all_eq_true.1 hall c h

/-- The signs that could end a text, a statement or a line, or open a comment. -/
def breakers : List Char := "'\"`\\;-/#".toList

theorem isShown_of_mem_breakers {c : Char} (h : c ∈ breakers) : isShown c = false := by
  have hall : breakers.all fun c => !isShown c := by decide +kernel
  simpa using List.all_eq_true.1 hall c h

/-- Whatever is asked, a statement with parameters is written in letters, numerals and fourteen
signs. So there is nothing in it to break out with. -/
theorem Query.statement_isShown {text : String} {q : Query} (hq : Query.parse text = .ok q)
    (page : Option Page) (backend : Backend) (now : Time.Timestamp) {a : Artifact}
    (ha : Query.compile { q with page := page } backend .parameterized now = .ok a) :
    ∀ c ∈ a.statement.toList, isShown c ∧ c ∉ breakers := by
  obtain ⟨ps, hps, rfl⟩ := compile_eq_ok_iff.1 ha
  have hneat := (Query.named_of_parse hq page).pieces_isNeat hps
  intro c hc
  have hshown : isShown c := by
    rcases Piece.mem_numbered hneat 1 hc with hplain | hmark
    · exact isShown_of_isPlain hplain
    · exact isShown_of_mem_mark hmark
  refine ⟨hshown, fun hbreaker => ?_⟩
  rw [isShown_of_mem_breakers hbreaker] at hshown
  exact absurd hshown (by decide)

/-- A field with a letter outside ASCII, and a text in which all breakers stand. -/
theorem Query.statement_isShown_breakers : ∃ q a,
    Query.parse "find traps where Größe = '\\'\"`\\\\;-/#'" = .ok q ∧
    Query.compile { q with page := q.page } .arangoDb .parameterized (.midnight ⟨2024, 1, 1⟩) =
      .ok a ∧
    a.statement = "FOR doc IN traps\n  FILTER doc.größe == @p1\n  RETURN doc" ∧
    ∀ c ∈ a.statement.toList, isShown c ∧ c ∉ breakers := by
  obtain ⟨q, a, hq, ha, hstatement⟩ := exists_of_statement? (show statement?
      "find traps where Größe = '\\'\"`\\\\;-/#'" .arangoDb .parameterized
      (.midnight ⟨2024, 1, 1⟩) = some
      "FOR doc IN traps\n  FILTER doc.größe == @p1\n  RETURN doc"
    by decide +kernel)
  exact ⟨q, a, hq, ha, hstatement, Query.statement_isShown hq q.page .arangoDb _ ha⟩

end NetQuery
