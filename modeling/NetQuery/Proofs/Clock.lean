import NetQuery.Proofs.Readback
import NetQuery.Proofs.Transfer

/-!
# What the clock decides

A query is compiled at some time, and that time is looked at in one place: where a date keyword has
to be turned into the text of a date. The SQL engines have a word for each keyword, so their
statements do not depend on the time at all. The graph engine is given the text of a date, so its
statements depend on the date, and only if there is a keyword.
-/

namespace NetQuery

namespace Compiler

variable {ctx ctx' : Context} {field : RenderedField}

/-! ## Date keywords -/

/-- No field of an SQL engine is a part of the text of a timestamp. -/
theorem datePart_eq_false (hd : ctx.dialect.IsSql) {f : String}
    (h : renderField ctx f = .ok field) : field.datePart = false := by
  unfold renderField at h
  simp only at h
  split at h
  next =>
    cases h
    rfl
  next =>
    split at h
    next => cases h
    next =>
      cases h
      rfl
    next hform =>
      obtain ⟨_, -, hcall, -⟩ := hd.function_cases hform
      cases hcall

theorem scalar_eq_of_sql (hd : ctx.dialect.IsSql) (hdialect : ctx'.dialect = ctx.dialect)
    (hpart : field.datePart = false) (forced : Option ParamType) (word : DateKeyword) :
    scalar ctx' field forced (.keyword word) = scalar ctx field forced (.keyword word) := by
  simp only [scalar, hpart, hdialect, hd.dateKeyword]

theorem scalar_eq_of_date (hdialect : ctx'.dialect = ctx.dialect)
    (hdate : ctx'.now.date = ctx.now.date) (forced : Option ParamType) (word : DateKeyword) :
    scalar ctx' field forced (.keyword word) = scalar ctx field forced (.keyword word) := by
  have htext : word.dateText ctx'.now = word.dateText ctx.now := by
    cases word <;> simp only [DateKeyword.dateText, DateKeyword.date, hdate]
  simp only [scalar, hdialect, htext]

/-- A comparison does not change with the clock if no date keyword in it does. -/
theorem comparison_congr (hdialect : ctx'.dialect = ctx.dialect)
    (hentity : ctx'.entity = ctx.entity) {c : Comparison}
    (h : ∀ field, renderField ctx c.field = .ok field →
      ∀ forced word, .keyword word ∈ c.value.scalars →
        scalar ctx' field forced (.keyword word) = scalar ctx field forced (.keyword word)) :
    comparison ctx' c = comparison ctx c := by
  have hrender : renderField ctx' c.field = renderField ctx c.field := by
    unfold renderField
    rw [hdialect, hentity]
  unfold comparison
  rw [hrender, hdialect]
  cases hfield : renderField ctx c.field with
  | error e => rfl
  | ok field =>
    have hoperation : operation ctx' c field = operation ctx c field := by
      rw [operation_eq_map, operation_eq_map, operandPieces_congr rfl (h field hfield), hdialect]
    simp only [bind, Except.bind, hoperation]

/-! ## Whether something can be written -/

theorem scalar_anytime {forced : Option ParamType} {v : Value} {ps : List Piece}
    (h : scalar ctx field forced v = .ok ps) (now : Time.Timestamp) :
    ∃ qs, scalar { ctx with now := now } field forced v = .ok qs := by
  cases v with
  | keyword word =>
    unfold scalar
    simp only
    split
    · exact ⟨_, rfl⟩
    · exact ⟨_, rfl⟩
  | _ => exact ⟨ps, h⟩

/-- What is written for a comparison may change with the clock, but not whether it can be. -/
theorem comparison_anytime {backend : Backend} (hctx : ctx.dialect = backend.dialect)
    {c : Comparison} (hc : Operand c.operator c.value) {ps : List Piece}
    (h : comparison ctx c = .ok ps) (now : Time.Timestamp) :
    ∃ qs, comparison { ctx with now := now } c = .ok qs := by
  obtain ⟨field, hfield, h⟩ := bind_eq_ok_iff.1 h
  obtain ⟨⟨⟩, hcheck, h⟩ := bind_eq_ok_iff.1 h
  have hscalar : ∀ {forced v ps}, v.IsScalar → scalar ctx field forced v = .ok ps →
      ∃ qs, scalar { ctx with now := now } field forced v = .ok qs ∧ True := by
    intro forced v ps _ h
    obtain ⟨qs, hqs⟩ := scalar_anytime h now
    exact ⟨qs, hqs, trivial⟩
  obtain ⟨qs, hqs, -⟩ := operation_transfer (R := fun _ _ _ => True) trivial
    (fun _ _ => trivial) hscalar (fun _ => trivial) rfl hctx hctx hc h
  exact ⟨qs, bind_eq_ok_iff.2 ⟨field, hfield, bind_eq_ok_iff.2 ⟨(), hcheck, hqs⟩⟩⟩

theorem order_anytime (items : List OrderItem) (now : Time.Timestamp) :
    order { ctx with now := now } items = order ctx items := by
  induction items with
  | nil => rfl
  | cons item items ih =>
    rw [order, order, ih]
    rfl

end Compiler

/-! ## Queries -/

namespace Query

variable {q : Query} {backend : Backend}

theorem compile_eq_of_keywords {now now' : Time.Timestamp}
    (h : ∀ c ∈ comparisonsOf q.conditions, ∀ field,
      Compiler.renderField (q.context backend now') c.field = .ok field →
        ∀ forced word, .keyword word ∈ c.value.scalars →
          Compiler.scalar (q.context backend now) field forced (.keyword word) =
            Compiler.scalar (q.context backend now') field forced (.keyword word)) (mode : Mode) :
    q.compile backend mode now = q.compile backend mode now' := by
  have hdialect : (q.context backend now).dialect = (q.context backend now').dialect := rfl
  have hentity : (q.context backend now).entity = (q.context backend now').entity := rfl
  have hfilter : Compiler.filter (q.context backend now) q.conditions =
      Compiler.filter (q.context backend now') q.conditions :=
    Compiler.filter_congr hdialect fun c hc => Compiler.comparison_congr hdialect hentity (h c hc)
  have horder : Compiler.order (q.context backend now) q.appliedOrder =
      Compiler.order (q.context backend now') q.appliedOrder :=
    @Compiler.order_anytime (q.context backend now') q.appliedOrder now
  unfold context at hfilter horder
  simp only [compile, pieces, clauses, hfilter, horder]

/-- For the SQL engines the clock does not matter. For the graph engine only its date does, and not
even that if no operand is a date keyword or has one among its elements. -/
theorem compile_eq_of_clocks (q : Query) (mode : Mode) (now now' : Time.Timestamp) :
    (∀ backend, backend ≠ .arangoDb →
      q.compile backend mode now = q.compile backend mode now') ∧
    (now.date = now'.date → q.compile .arangoDb mode now = q.compile .arangoDb mode now') ∧
    ((∀ c ∈ comparisonsOf q.conditions, ∀ v ∈ c.value.scalars, v.keyword? = none) →
      q.compile .arangoDb mode now = q.compile .arangoDb mode now') := by
  -- A clock is read for date keywords only, so in each case two clocks agree on these.
  refine ⟨fun backend hbackend => ?_, fun hdate => ?_, fun hnone => ?_⟩
  · have hd : (q.context backend now').dialect.IsSql := backend.isSql_dialect hbackend
    refine compile_eq_of_keywords (fun c _ field hfield forced word _ => ?_) mode
    exact Compiler.scalar_eq_of_sql hd (by rfl) (Compiler.datePart_eq_false hd hfield) forced word
  · refine compile_eq_of_keywords (fun c _ field _ forced word _ => ?_) mode
    exact Compiler.scalar_eq_of_date (by rfl) hdate forced word
  · refine compile_eq_of_keywords (fun c hc field _ forced word hword => ?_) mode
    exact absurd (hnone c hc _ hword) (by simp [Value.keyword?])

/-- A range of days is the same to an SQL engine a year later, and to the graph engine at any hour
of one day; a list of texts is the same to the graph engine a year later. -/
theorem compile_eq_of_clocks_days : ∃ q r a b c,
    Query.parse "show devices where last_seen between yesterday and today" = .ok q ∧
    q.compile .clickHouse .literal ⟨⟨2024, 1, 1⟩, 0, 0, 0⟩ = .ok a ∧
    q.compile .clickHouse .literal ⟨⟨2025, 7, 9⟩, 3, 2, 1⟩ = .ok a ∧
    a.statement = "SELECT * FROM devices WHERE last_seen BETWEEN yesterday() AND today()" ∧
    q.compile .arangoDb .literal ⟨⟨2024, 1, 1⟩, 0, 0, 0⟩ = .ok b ∧
    q.compile .arangoDb .literal ⟨⟨2024, 1, 1⟩, 1439, 60, 5⟩ = .ok b ∧
    Query.parse "show devices where ip in ('x', 'y')" = .ok r ∧
    r.compile .arangoDb .literal ⟨⟨2024, 1, 1⟩, 0, 0, 0⟩ = .ok c ∧
    r.compile .arangoDb .literal ⟨⟨2025, 7, 9⟩, 3, 2, 1⟩ = .ok c := by
  obtain ⟨q, a, hq, ha, hstatement⟩ := exists_of_statement?
    (show statement? "show devices where last_seen between yesterday and today" .clickHouse .literal
      ⟨⟨2024, 1, 1⟩, 0, 0, 0⟩ = some
      "SELECT * FROM devices WHERE last_seen BETWEEN yesterday() AND today()" by decide +kernel)
  obtain ⟨q', b, hq', hb, -⟩ := exists_of_statement?
    (show statement? "show devices where last_seen between yesterday and today" .arangoDb .literal
      ⟨⟨2024, 1, 1⟩, 0, 0, 0⟩ = some (Text.concat ["FOR doc IN devices\n  FILTER ",
      "(doc.last_seen >= '2023-12-31' AND doc.last_seen <= '2024-01-01')\n  RETURN doc"])
      by decide +kernel)
  obtain rfl : q = q' := Except.ok.inj (hq.symm.trans hq')
  obtain ⟨r, c, hr, hc, -⟩ := exists_of_statement?
    (show statement? "show devices where ip in ('x', 'y')" .arangoDb .literal
      ⟨⟨2024, 1, 1⟩, 0, 0, 0⟩ = some
      "FOR doc IN devices\n  FILTER doc.ip IN ['x', 'y']\n  RETURN doc" by decide +kernel)
  obtain ⟨r', hr', hkeywords⟩ := toOption_map_eq_some_iff.1
    (show (Query.parse "show devices where ip in ('x', 'y')").toOption.map
      (fun q => (comparisonsOf q.conditions).map fun c => c.value.scalars.map Value.keyword?) =
      some [[none, none]] by decide +kernel)
  obtain rfl : r = r' := Except.ok.inj (hr.symm.trans hr')
  have hnone : ∀ c ∈ comparisonsOf r.conditions, ∀ v ∈ c.value.scalars, v.keyword? = none := by
    intro c hc v hv
    have hmem := List.mem_map_of_mem (f := fun c => c.value.scalars.map Value.keyword?) hc
    rw [hkeywords, List.mem_singleton] at hmem
    have hv' := List.mem_map_of_mem (f := Value.keyword?) hv
    rw [hmem] at hv'
    simpa using hv'
  have hsql := (compile_eq_of_clocks q .literal ⟨⟨2024, 1, 1⟩, 0, 0, 0⟩
    ⟨⟨2025, 7, 9⟩, 3, 2, 1⟩).1 .clickHouse (by decide)
  have hgraph := (compile_eq_of_clocks q .literal ⟨⟨2024, 1, 1⟩, 0, 0, 0⟩
    ⟨⟨2024, 1, 1⟩, 1439, 60, 5⟩).2.1 rfl
  have hplain := (compile_eq_of_clocks r .literal ⟨⟨2024, 1, 1⟩, 0, 0, 0⟩
    ⟨⟨2025, 7, 9⟩, 3, 2, 1⟩).2.2 hnone
  exact ⟨q, r, a, b, c, hq, ha, hsql.symm.trans ha, hstatement, hb, hgraph.symm.trans hb, hr, hc,
    hplain.symm.trans hc⟩

end Query

end NetQuery
