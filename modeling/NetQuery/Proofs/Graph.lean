import NetQuery.Proofs.Days
import NetQuery.Proofs.Readback
import NetQuery.Proofs.Transfer

/-!
# The graph engine and the SQL engines

The graph engine does not check a literal against its column, and it has no words for days: where an
SQL engine is told `today()`, it is given the text of a date. So what an SQL engine takes, the graph
engine takes as well, if it stores the entity and is asked for the date of one field at a time; and
its values are those of the SQL engine, with one more for each date keyword.
-/

namespace NetQuery

/-- The operands of the conditions of a query, from left to right. -/
def Query.operands (q : Query) : List Value :=
  (comparisonsOf q.conditions).flatMap Comparison.operands

/-- The fields of a query, those of its conditions first. -/
def Query.fields (q : Query) : List String :=
  (comparisonsOf q.conditions).map Comparison.field ++ q.orderBy.map OrderItem.field

/-- A call of the date function has one argument. -/
def DatesOne (f : String) : Prop :=
  (FieldRef.ofText f).function = some "date" → (FieldRef.ofText f).args.length = 1

/-- The values `qs` are the values `ps` with one text put in for each date keyword among the
operands, in its place: the day that the keyword stands for, written as a date. Any other operand
has one value in both and holds no keyword. -/
inductive Dated (now : Time.Timestamp) : List Value → List Param → List Param → Prop where
  | nil : Dated now [] [] []
  | keyword {word : DateKeyword} {day : Time.Date} {s : String} (hday : word.Means now day)
      (hs : day.WrittenAs s) {vs : List Value} {ps qs : List Param} (h : Dated now vs ps qs) :
      Dated now (.keyword word :: vs) ps (.text s :: qs)
  | value {v : Value} (param : Param) (hv : ∀ x ∈ v.scalars, x.keyword? = none) {vs : List Value}
      {ps qs : List Param} (h : Dated now vs ps qs) :
      Dated now (v :: vs) (param :: ps) (param :: qs)

/-- The graph engine is given one value for each operand. -/
theorem Dated.length {now : Time.Timestamp} {vs : List Value} {ps qs : List Param}
    (h : Dated now vs ps qs) : qs.length = vs.length := by
  induction h with
  | nil => rfl
  | keyword _ _ _ ih => exact congrArg Nat.succ ih
  | value _ _ _ ih => exact congrArg Nat.succ ih

theorem Dated.append {now : Time.Timestamp} {vs vs' : List Value} {ps qs ps' qs' : List Param}
    (h : Dated now vs ps qs) (h' : Dated now vs' ps' qs') :
    Dated now (vs ++ vs') (ps ++ ps') (qs ++ qs') := by
  induction h with
  | nil => exact h'
  | keyword hday hs _ ih => exact .keyword hday hs ih
  | value param hv _ ih => exact .value param hv ih

/-! ## Comparisons -/

namespace Compiler

variable {ctx : Context} {field graph : RenderedField}

/-- The same query at the same time, for the graph engine. -/
def Context.onGraph (ctx : Context) : Context := { ctx with dialect := .arangoDb }

/-- A function of the SQL engines is one of the graph engine. Only a date is not a call there. -/
theorem function_arangoDb (hd : ctx.dialect.IsSql) {f : String} {form : FunctionForm}
    (h : ctx.dialect.function f = some form) :
    (f = "date" ∧ Dialect.arangoDb.function f = some (.datePart "SUBSTRING" 0 10)) ∨
      ∃ word, Dialect.arangoDb.function f = some (.call word) := by
  obtain ⟨word, hword, -, rfl⟩ := hd.function_cases h
  simp only [List.mem_cons, List.not_mem_nil, or_false] at hword
  rcases hword with rfl | rfl | rfl | rfl
  · exact Or.inl ⟨rfl, rfl⟩
  · exact Or.inl ⟨rfl, rfl⟩
  · exact Or.inr ⟨"LOWER", rfl⟩
  · exact Or.inr ⟨"UPPER", rfl⟩

/-- A field means the same to the graph engine, down to its type. -/
theorem renderField_onGraph (hd : ctx.dialect.IsSql) {f : String} (hf : IsField f)
    (hone : DatesOne f) (h : renderField ctx f = .ok field) :
    ∃ graph, renderField ctx.onGraph f = .ok graph ∧ graph.type = field.type := by
  unfold DatesOne at hone
  cases renderField_cases hf h with
  | column hname =>
    unfold renderField
    rw [FieldRef.ofText_name hname]
    exact ⟨_, rfl, rfl⟩
  | @call name word args hname hne hargs hword =>
    rw [FieldRef.ofText_call hname hne hargs] at hone
    unfold renderField
    rw [FieldRef.ofText_call hname hne hargs]
    rcases function_arangoDb hd hword with ⟨hdate, hform⟩ | ⟨graphWord, hform⟩
    · have hlength : args.length = 1 := hone (congrArg some hdate)
      simp only [Context.onGraph, hform, if_pos hlength]
      exact ⟨_, rfl, rfl⟩
    · simp only [Context.onGraph, hform]
      exact ⟨_, rfl, rfl⟩
  | datePart _ _ hword =>
    obtain ⟨_, -, hform, -⟩ := hd.function_cases hword
    cases hform

/-- The graph engine asks no more of a literal than that it goes with its operator. -/
theorem checkLiteral_arangoDb {d : Dialect} {op : Operator} {v : Value} {column : Option ColumnType}
    (h : checkLiteral d op v column = .ok ()) (column' : Option ColumnType) :
    checkLiteral .arangoDb op v column' = .ok () := by
  obtain ⟨_, hoperator, -⟩ := bind_eq_ok_iff.1 h
  exact bind_eq_ok_iff.2 ⟨(), hoperator, rfl⟩

theorem scalar_onGraph (hd : ctx.dialect.IsSql) (hpart : field.datePart = false)
    (htype : graph.type = field.type) {forced : Option ParamType} {v : Value} (hv : v.IsScalar)
    {ps : List Piece} (h : scalar ctx field forced v = .ok ps) :
    ∃ qs, scalar ctx.onGraph graph forced v = .ok qs ∧
      Dated ctx.now [v] (Piece.params ps) (Piece.params qs) := by
  rcases (scalar_cases h).sql_cases hd hpart with ⟨word, rfl, rfl⟩ | ⟨hword, param, rfl⟩
  · refine ⟨[.param (.text (word.dateText ctx.now))], ?_,
      .keyword (word.means_date ctx.now) (Time.Date.writtenAs_text _) .nil⟩
    cases hgraph : graph.datePart <;> simp [scalar, hgraph, Context.onGraph, Dialect.arangoDb]
  · have hsame : scalar ctx.onGraph graph forced v = scalar ctx field forced v := by
      cases v with
      | keyword word => cases hword
      | _ => simp only [scalar, htype]
    have hnone : ∀ x ∈ v.scalars, x.keyword? = none := by
      cases v with
      | list items => exact hv.elim
      | _ => simpa [Value.scalars] using hword
    exact ⟨_, hsame.trans h, .value param hnone .nil⟩

/-- The operands of a comparison are bound by the graph engine as by an SQL engine. -/
theorem operation_onGraph (hd : ctx.dialect.IsSql) (hpart : field.datePart = false)
    (htype : graph.type = field.type) {c : Comparison} (hc : Operand c.operator c.value)
    {ps : List Piece} (h : operation ctx c field = .ok ps) :
    ∃ qs, operation ctx.onGraph c graph = .ok qs ∧
      Dated ctx.now c.operands (Piece.params ps) (Piece.params qs) := by
  obtain ⟨backend, hctx⟩ : ∃ backend : Backend, ctx.dialect = backend.dialect := by
    rcases hd with hclick | hproton
    · exact ⟨.clickHouse, hclick⟩
    · exact ⟨.proton, hproton⟩
  have hgraph : ctx.onGraph.dialect = Backend.arangoDb.dialect := rfl
  have hlist : ∀ {items param}, (Value.list items).bindList field.type = .ok param →
      Dated ctx.now [.list items] [param] [param] := by
    intro items param hbound
    exact .value (v := .list items) param (keyword?_of_bindList hbound) .nil
  exact operation_transfer .nil Dated.append (fun hv h => scalar_onGraph hd hpart htype hv h) hlist
    htype hctx hgraph hc h

theorem comparison_onGraph (hd : ctx.dialect.IsSql) {c : Comparison} (hc : c.Formed)
    (hone : DatesOne c.field) {ps : List Piece} (h : comparison ctx c = .ok ps) :
    ∃ qs, comparison ctx.onGraph c = .ok qs ∧
      Dated ctx.now c.operands (Piece.params ps) (Piece.params qs) := by
  obtain ⟨field, hfield, h⟩ := bind_eq_ok_iff.1 h
  obtain ⟨⟨⟩, hcheck, h⟩ := bind_eq_ok_iff.1 h
  obtain ⟨-, hpart⟩ := (renderField_cases hc.field hfield).spelled hd
  obtain ⟨graph, hgraph, htype⟩ := renderField_onGraph hd hc.field hone hfield
  obtain ⟨qs, hqs, hdated⟩ := operation_onGraph hd hpart htype hc.operand h
  have hlax := checkLiteral_arangoDb (mapError_eq_ok_iff.1 hcheck) graph.type
  exact ⟨qs, bind_eq_ok_iff.2 ⟨graph, hgraph,
    bind_eq_ok_iff.2 ⟨(), mapError_eq_ok_iff.2 hlax, hqs⟩⟩, hdated⟩

/-! ## Chains -/

/-- The values of a chain, comparison by comparison. -/
theorem Joins.dated (hd : ctx.dialect.IsSql) {cs : List Comparison} {ps qs : List Piece}
    (hformed : ∀ c ∈ cs, c.Formed) (hone : ∀ c ∈ cs, DatesOne c.field) (hps : Joins ctx cs ps)
    (hqs : Joins ctx.onGraph cs qs) :
    Dated ctx.now (cs.flatMap Comparison.operands) (Piece.params ps) (Piece.params qs) := by
  obtain ⟨pss, hpss, hparams, -⟩ := hps
  obtain ⟨qss, hqss, hparams', -⟩ := hqs
  rw [hparams, hparams']
  clear hparams hparams'
  induction hpss generalizing qss with
  | nil =>
    cases hqss
    exact .nil
  | @cons c ps cs pss hc _ ih =>
    cases hqss with
    | @cons _ qs _ qss hc' hqss =>
      obtain ⟨qs', hqs', hdated⟩ := comparison_onGraph hd (hformed c List.mem_cons_self)
        (hone c List.mem_cons_self) hc
      obtain rfl : qs' = qs := Except.ok.inj (hqs'.symm.trans hc')
      exact hdated.append (ih (fun c hc => hformed c (List.mem_cons_of_mem _ hc))
        (fun c hc => hone c (List.mem_cons_of_mem _ hc)) qss hqss)

theorem order_onGraph (hd : ctx.dialect.IsSql) {items : List OrderItem}
    (hfields : ∀ item ∈ items, IsField item.field) (hone : ∀ item ∈ items, DatesOne item.field)
    {keys : List String} (h : order ctx items = .ok keys) :
    ∃ keys', order ctx.onGraph items = .ok keys' := by
  induction items generalizing keys with
  | nil => exact ⟨[], rfl⟩
  | cons item items ih =>
    obtain ⟨field, rest, hfield, hrest, -⟩ := order_cons_eq_ok_iff.1 h
    obtain ⟨graph, hgraph, -⟩ := renderField_onGraph hd (hfields item List.mem_cons_self)
      (hone item List.mem_cons_self) hfield
    obtain ⟨rest', hrest'⟩ := ih (fun x hx => hfields x (List.mem_cons_of_mem _ hx))
      (fun x hx => hone x (List.mem_cons_of_mem _ hx)) hrest
    exact ⟨_, order_cons_eq_ok_iff.2 ⟨graph, rest', hgraph, hrest', rfl⟩⟩

end Compiler

/-! ## Queries -/

namespace Query

theorem mem_fields_of_comparison {q : Query} {c : Comparison}
    (hc : c ∈ comparisonsOf q.conditions) : c.field ∈ q.fields :=
  List.mem_append_left _ (List.mem_map_of_mem hc)

theorem mem_fields_of_appliedOrder {q : Query} {item : OrderItem} (h : item ∈ q.appliedOrder) :
    item.field ∈ q.fields := by
  unfold appliedOrder at h
  split at h
  · exact List.mem_append_right _ (List.mem_map_of_mem h)
  · cases h

theorem Formed.pieces_onGraph {q : Query} (hq : q.Formed) {backend : Backend}
    (hd : backend.dialect.IsSql) (hstored : (Dialect.collection? q.entity).isSome)
    (hone : ∀ f ∈ q.fields, DatesOne f) {now : Time.Timestamp} {ps : List Piece}
    (h : q.pieces backend now = .ok ps) : ∃ qs, q.pieces .arangoDb now = .ok qs := by
  obtain ⟨source, offset, filter, order, -, hoffset, hfilter, horder, -⟩ := pieces_eq_ok_iff.1 h
  obtain ⟨collection, hcollection⟩ := Option.isSome_iff_exists.1 hstored
  have hcomparison : ∀ c ∈ comparisonsOf q.conditions, ∀ rs,
      Compiler.comparison (q.context backend now) c = .ok rs →
      ∃ rs', Compiler.comparison (q.context .arangoDb now) c = .ok rs' := by
    intro c hc rs hrs
    obtain ⟨rs', hrs', -⟩ := Compiler.comparison_onGraph hd (hq.comparisons c hc)
      (hone _ (mem_fields_of_comparison hc)) hrs
    exact ⟨rs', hrs'⟩
  obtain ⟨filter', hfilter'⟩ := Compiler.filter_transfer hcomparison hfilter
  obtain ⟨order', horder'⟩ := Compiler.order_onGraph hd hq.named.appliedOrder
    (fun item hitem => hone _ (mem_fields_of_appliedOrder hitem)) horder
  exact ⟨_, pieces_eq_ok_iff.2
    ⟨collection, offset, filter', order', hcollection, hoffset, hfilter', horder', rfl⟩⟩

/-- What an SQL engine takes, the graph engine takes, if it stores the entity and every call of the
date function has one argument. Its values are those of the SQL engine with one text for each date
keyword, in the place of the keyword: the date of the clock or the day before it. -/
theorem graph_accepts_sql {text : String} {q : Query} (hq : Query.parse text = .ok q)
    (hstored : (Dialect.collection? q.entity).isSome) (hone : ∀ f ∈ q.fields, DatesOne f)
    {backend : Backend} (hbackend : backend ≠ .arangoDb) (now : Time.Timestamp) {a : Artifact}
    (ha : q.compile backend .parameterized now = .ok a) :
    ∃ b, q.compile .arangoDb .parameterized now = .ok b ∧
      Dated now q.operands a.params b.params := by
  have hformed := Query.parse_formed hq
  have hd := backend.isSql_dialect hbackend
  obtain ⟨ps, hps, rfl⟩ := compile_eq_ok_iff.1 ha
  obtain ⟨qs, hqs⟩ := hformed.pieces_onGraph hd hstored hone hps
  refine ⟨_, compile_eq_ok_iff.2 ⟨qs, hqs, rfl⟩, ?_⟩
  obtain ⟨ps', hjoins, hparams⟩ := pieces_joins hps
  obtain ⟨qs', hjoins', hparams'⟩ := pieces_joins hqs
  have hdated := Compiler.Joins.dated hd hformed.comparisons
    (fun c hc => hone _ (mem_fields_of_comparison hc)) hjoins hjoins'
  rw [← hparams, ← hparams'] at hdated
  exact hdated

/-- At the turn of a year: the last day of one as a bound of a range and the first day of the next
in a group, with a text and a list between them. -/
theorem graph_accepts_sql_days : ∃ q a b,
    Query.parse "show flows where date(a) between yesterday and 'x' and (b in (1) or c = today)" =
      .ok q ∧
    q.entity = .flows ∧ q.fields = ["date(a)", "b", "c"] ∧
    q.compile .clickHouse .parameterized (.midnight ⟨2024, 1, 1⟩) = .ok a ∧
    a.statement =
      "SELECT * FROM flows WHERE toDate(a) BETWEEN yesterday() AND $1 AND (b IN $2 OR c = today())" ∧
    a.params = [.text "x", .intArray [1]] ∧
    q.compile .arangoDb .parameterized (.midnight ⟨2024, 1, 1⟩) = .ok b ∧
    b.params = [.text "2023-12-31", .text "x", .intArray [1], .text "2024-01-01"] ∧
    Dated (.midnight ⟨2024, 1, 1⟩) q.operands a.params b.params := by
  obtain ⟨q, a, hq, ha, hsql⟩ := exists_of_statement?
    (show statement?
      "show flows where date(a) between yesterday and 'x' and (b in (1) or c = today)" .clickHouse
      .parameterized (.midnight ⟨2024, 1, 1⟩) = some
      "SELECT * FROM flows WHERE toDate(a) BETWEEN yesterday() AND $1 AND (b IN $2 OR c = today())"
      by decide +kernel)
  obtain ⟨q', hq', hread⟩ := toOption_map_eq_some_iff.1
    (show (Query.parse
      "show flows where date(a) between yesterday and 'x' and (b in (1) or c = today)").toOption.map
      (fun q => (q.entity, q.fields, [Backend.clickHouse, Backend.arangoDb].map fun backend =>
        (q.compile backend .parameterized (.midnight ⟨2024, 1, 1⟩)).toOption.map
          Artifact.params)) =
      some (.flows, ["date(a)", "b", "c"], [some [.text "x", .intArray [1]],
        some [.text "2023-12-31", .text "x", .intArray [1], .text "2024-01-01"]])
      by decide +kernel)
  obtain rfl : q = q' := Except.ok.inj (hq.symm.trans hq')
  obtain ⟨hentity, hrest⟩ := Prod.mk.inj hread
  obtain ⟨hfields, hparams⟩ := Prod.mk.inj hrest
  have hstored : (Dialect.collection? q.entity).isSome := by
    rw [hentity]
    rfl
  have hone : ∀ f ∈ q.fields, DatesOne f := by
    rw [hfields]
    simp only [List.forall_mem_cons, DatesOne]
    decide +kernel
  obtain ⟨b, hb, hdated⟩ := graph_accepts_sql hq hstored hone (by decide) _ ha
  simp only [List.map_cons, List.map_nil, ha, hb, Except.toOption, Option.map_some, List.cons.injEq,
    Option.some.injEq, and_true] at hparams
  exact ⟨q, a, b, hq, hentity, hfields, ha, hsql, hparams.1, hb, hparams.2, hdated⟩

end Query

end NetQuery
