import NetQuery.Proofs.Binding
import NetQuery.Proofs.Clock
import NetQuery.Proofs.Placeholders

/-!
# The types of parameters

The SQL engines are strict: a parameter that is compared with a column has to be of a type that goes
with the column. Three parts of the compiler see to that together, the check of a literal against
the catalog, the choice of a tag, and the binding of a list, and each has its own table of cases.
The result is one table, `Param.Fits`, which every parameter of every statement keeps to.
-/

namespace NetQuery

/-- The type of a field, if it is known: that of its column in the catalog, or that of what its
function returns. -/
def Entity.fieldType? (e : Entity) (field : String) : Option ColumnType :=
  match (FieldRef.ofText field).function with
  | none => e.columnType? field
  | some function =>
    if function = "date" then some .date
    else if function = "lower" ∨ function = "upper" then some .text
    else none

/-- The parameter goes with a column whose entries are of the given type. The type of an entry is
never an array. -/
def Param.Fits : ColumnType → Param → Prop
  | .text, p | .date, p => p.type = .text ∨ p.type = .textArray
  | .bool, p => p.type = .bool
  | .int, p => p.type = .int ∨ p.type = .intArray
  | .float, p => p.type = .float ∨ p.type = .intArray
  | .timestamptz, p => p.type = .timestamptz ∨
      ∃ items, p = .textArray items ∧ ∀ item ∈ items, ∃ s, normalizeTimestamp s = .ok item
  | .textArray, _ | .intArray, _ => False

namespace Compiler

variable {ctx : Context} {field : RenderedField} {column : ColumnType}

/-! ## The check of a literal -/

theorem functionType?_eq (function : String) : functionType? function =
    if function = "date" then some .date
    else if function = "lower" ∨ function = "upper" then some .text
    else none := by
  unfold functionType?
  split <;> simp_all

theorem renderField_type {f : String} (h : renderField ctx f = .ok field) :
    field.type = ctx.entity.fieldType? f := by
  unfold renderField at h
  unfold Entity.fieldType?
  simp only at h
  cases hfunction : (FieldRef.ofText f).function with
  | none =>
    rw [hfunction] at h
    cases h
    rfl
  | some function =>
    rw [hfunction] at h
    simp only at h ⊢
    rw [← functionType?_eq]
    split at h
    next => cases h
    next =>
      cases h
      rfl
    next =>
      split at h
      next =>
        cases h
        rfl
      next => cases h

/-- A scalar of an operand passes the check if it may be compared with an entry of the column. Only
a null check is exempt, and that has no scalar. -/
theorem agrees_of_checkLiteral (hd : ctx.dialect.IsSql) {operator : Operator} {value : Value}
    (hoperand : Operand operator value)
    (h : checkLiteral ctx.dialect operator value (some column) = .ok ()) :
    ∀ v ∈ value.scalars, v.IsScalar → agrees column.element v := by
  have hstrict : ctx.dialect.strictTypes = true := by
    rcases hd with hd | hd <;> rw [hd] <;> rfl
  obtain ⟨_, -, hchecked⟩ := bind_eq_ok_iff.1 h
  rw [if_pos hstrict] at hchecked
  intro v hv hscalar
  unfold checkColumn at hchecked
  split at hchecked
  next =>
    cases hoperand
    cases List.mem_singleton.1 hv
    exact hscalar.elim
  next =>
    cases hoperand
    cases List.mem_singleton.1 hv
    exact hscalar.elim
  next heq => cases heq
  next heq =>
    cases heq
    split at hchecked
    next => cases hchecked
    next hfind =>
      have hagrees := List.find?_eq_none.1 hfind v hv
      simpa using hagrees

/-! ## Scalars -/

/-- A scalar that passed the check is bound with a tag that goes with the column. -/
theorem bind_fits {v : Value} {type : ParamType} {param : Param} (hv : agrees column.element v)
    (htype : ParamType.infer v (some column) = .ok type) (h : v.bind type = .ok param) :
    param.Fits column.element := by
  obtain ⟨rfl, -⟩ := (bind_eq_ok_iff_holds htype).1 h
  cases column <;> cases v <;> cases hv <;>
    simp [ParamType.infer] at htype <;> simp [Param.Fits, ColumnType.element, ← htype]

/-- On an SQL engine a keyword becomes a word of the engine. Any other scalar becomes a parameter; a
tag is forced on it only next to a float, and then the column holds floats. -/
theorem scalar_fits (hd : ctx.dialect.IsSql) (hpart : field.datePart = false)
    (hcolumn : field.type = some column) {forced : Option ParamType} {v : Value} {ps : List Piece}
    (hforced : ∀ type ∈ forced, type = .float ∧ column.element = .float)
    (hv : agrees column.element v) (h : scalar ctx field forced v = .ok ps) :
    ∀ p ∈ Piece.params ps, p.Fits column.element := by
  by_cases hkind : v.kind = .keyword
  · obtain ⟨word, rfl⟩ : ∃ word, v = .keyword word := by
      cases v <;> cases hkind
      exact ⟨_, rfl⟩
    simp only [scalar, hpart, hd.dateKeyword] at h
    cases h
    simp [Piece.params]
  · obtain ⟨type, param, htype, hbind, rfl⟩ := scalar_bound hkind h
    suffices hfits : param.Fits column.element by simpa [Piece.params] using hfits
    rcases htype with rfl | ⟨rfl, htype⟩
    · obtain ⟨rfl, hfloat⟩ := hforced type rfl
      have hparam : param.type = .float := by
        cases v <;> cases hbind <;> rfl
      rw [hfloat]
      exact Or.inl hparam
    · rw [hcolumn] at htype
      exact bind_fits hv htype hbind

/-- The bounds of a range are floats or integers, and one of them is a float, only if the column
holds floats. -/
theorem rangeType_float {low high : Value} (hlow : agrees column.element low)
    (hhigh : agrees column.element high) :
    ∀ type ∈ rangeType low high, type = .float ∧ column.element = .float := by
  intro type htype
  unfold rangeType at htype
  split at htype
  next hfloat =>
    refine ⟨(Option.some.inj htype).symm, ?_⟩
    generalize column.element = element at hlow hhigh
    rcases Bool.or_eq_true_iff.1 hfloat with hfloat | hfloat
    · cases low <;> cases hfloat
      cases element <;> cases hlow
      rfl
    · cases high <;> cases hfloat
      cases element <;> cases hhigh
      rfl
  next => cases htype

/-! ## Lists -/

/-- A list that passed the check is bound as an array that goes with the column. -/
theorem bindList_fits {items : List Value} {param : Param}
    (hitems : ∀ v ∈ items, agrees column.element v)
    (h : (Value.list items).bindList (some column) = .ok param) : param.Fits column.element := by
  obtain ⟨type, htype, -⟩ := bind_eq_ok_iff.1 h
  obtain ⟨first, rest, rfl, hfirst⟩ := infer_list_cases htype
  have hagrees := hitems first List.mem_cons_self
  by_cases hcolumn : column = .timestamptz
  · subst hcolumn
    obtain ⟨bound, hbound, hstandard⟩ := (bindList_eq_ok_iff htype).1 h
    cases hstandard with
    | @texts texts standards hread =>
      have hflip : List.Forall₂ (fun item s => Time.Timestamp.normalize? s = some item) standards
        texts := hread.flip
      have heach : List.Forall₂ (fun item s => (∃ s, normalizeTimestamp s = .ok item) ∧
          Time.Timestamp.normalize? s = some item) standards texts :=
        hflip.imp fun _ s hs => ⟨⟨s, normalizeTimestamp_eq_ok_iff.2 hs⟩, hs⟩
      exact Or.inr ⟨standards, rfl, ((List.forall₂_and_left _ _).1 heach).1⟩
    | other hne =>
      -- Only a list of integers is left, and integers do not pass the check.
      obtain ⟨rfl, -⟩ := (bind_eq_ok_iff_holds htype).1 hbound
      rcases hfirst with ⟨harray, -⟩ | ⟨-, hint⟩
      · exact absurd harray hne
      · cases first <;> cases hint
        cases hagrees
  · rw [bindList_eq_bind htype (by simpa using hcolumn)] at h
    obtain ⟨rfl, -⟩ := (bind_eq_ok_iff_holds htype).1 h
    rcases hfirst with ⟨harray, htext⟩ | ⟨harray, hint⟩
    · cases first <;> cases htext
      cases column <;> cases hagrees
      · exact Or.inr harray
      · exact Or.inr harray
      · exact absurd rfl hcolumn
      · exact Or.inr harray
    · cases first <;> cases hint
      cases column <;> cases hagrees
      · exact Or.inr harray
      · exact Or.inr harray
      · exact Or.inr harray

/-! ## Comparisons -/

theorem mem_params_fill {template : Template} {operand upper : List Piece} {p : Param}
    (h : p ∈ Piece.params (fill template field operand upper)) :
    p ∈ Piece.params operand ∨ p ∈ Piece.params upper := by
  rw [params_fill, List.mem_flatMap] at h
  obtain ⟨slot, -, hp⟩ := h
  cases slot with
  | operand => exact Or.inl hp
  | upper => exact Or.inr hp
  | text => cases hp
  | field => cases hp

/-- The operands of a comparison that passed the check go with the column. -/
theorem operandPieces_fits (hd : ctx.dialect.IsSql) (hpart : field.datePart = false)
    (hcolumn : field.type = some column) {c : Comparison} (hc : Operand c.operator c.value)
    (hcheck : checkLiteral ctx.dialect c.operator c.value (some column) = .ok ())
    {operands : List Piece × List Piece} (h : operandPieces ctx c field = .ok operands) :
    ∀ p ∈ Piece.params operands.1 ++ Piece.params operands.2, p.Fits column.element := by
  obtain ⟨f, operator, value⟩ := c
  have hagrees := agrees_of_checkLiteral hd hc hcheck
  have hscalar : ∀ {operand}, value.IsScalar → scalar ctx field none value = .ok operand →
      ∀ p ∈ Piece.params operand ++ Piece.params [], p.Fits column.element := by
    intro operand hv hoperand p hp
    have hself : value ∈ value.scalars := by
      cases value <;> simp_all [Value.scalars, Value.IsScalar]
    rw [Piece.params, List.append_nil] at hp
    exact scalar_fits hd hpart hcolumn (by simp) (hagrees value hself hv) hoperand p hp
  simp only at hc hagrees
  cases hc with
  | compare comparator hv =>
    obtain ⟨operand, hoperand, rfl⟩ := map_eq_ok_iff.1 h
    exact hscalar hv (mapError_eq_ok_iff.1 hoperand)
  | like hv =>
    obtain ⟨operand, hoperand, rfl⟩ := map_eq_ok_iff.1 h
    exact hscalar hv (mapError_eq_ok_iff.1 hoperand)
  | contains s =>
    obtain ⟨operand, hoperand, rfl⟩ := map_eq_ok_iff.1 h
    exact hscalar trivial (mapError_eq_ok_iff.1 hoperand)
  | isIn hne hlength hvs =>
    obtain ⟨param, hparam, rfl⟩ := map_eq_ok_iff.1 h
    have hlist := mapError_eq_ok_iff.1 hparam
    rw [hcolumn] at hlist
    have hfits := bindList_fits (fun v hv => hagrees v hv (hvs v hv)) hlist
    simpa [Piece.params] using hfits
  | @between low high hlow hhigh =>
    have hlow : agrees column.element low := hagrees low (by simp [Value.scalars]) hlow
    have hhigh : agrees column.element high := hagrees high (by simp [Value.scalars]) hhigh
    have hforced := rangeType_float hlow hhigh
    obtain ⟨lower, hlower, h⟩ := bind_eq_ok_iff.1 h
    obtain ⟨upper, hupper, hoperands⟩ := bind_eq_ok_iff.1 h
    cases hoperands
    intro p hp
    rcases List.mem_append.1 hp with hp | hp
    · exact scalar_fits hd hpart hcolumn hforced hlow (mapError_eq_ok_iff.1 hlower) p hp
    · exact scalar_fits hd hpart hcolumn hforced hhigh (mapError_eq_ok_iff.1 hupper) p hp
  | isNull =>
    cases h
    simp [Piece.params]
  | isNotNull =>
    cases h
    simp [Piece.params]

theorem comparison_fits (hd : ctx.dialect.IsSql) {c : Comparison} (hc : Operand c.operator c.value)
    (hcolumn : ctx.entity.fieldType? c.field = some column) {ps : List Piece}
    (h : comparison ctx c = .ok ps) :
    (∀ p ∈ Piece.params ps, p.Fits column.element) ∧
    ∀ word, .keyword word ∈ c.value.scalars →
      column.element = .timestamptz ∨ column.element = .date := by
  obtain ⟨field, hfield, h⟩ := bind_eq_ok_iff.1 h
  obtain ⟨⟨⟩, hcheck, h⟩ := bind_eq_ok_iff.1 h
  rw [operation_eq_map] at h
  obtain ⟨operands, hoperands, rfl⟩ := map_eq_ok_iff.1 h
  rw [← renderField_type hfield] at hcolumn
  have hchecked := mapError_eq_ok_iff.1 hcheck
  rw [hcolumn] at hchecked
  constructor
  · intro p hp
    exact operandPieces_fits hd (datePart_eq_false hd hfield) hcolumn hc hchecked hoperands p
      (List.mem_append.2 (mem_params_fill hp))
  · intro word hword
    have hagrees := agrees_of_checkLiteral hd hc hchecked _ hword trivial
    generalize column.element = element at hagrees
    cases element <;> cases hagrees
    · exact Or.inl rfl
    · exact Or.inr rfl

end Compiler

namespace Query

/-- On the SQL engines, every parameter goes with the catalog. The parameters of a statement are
those of its comparisons, each of which adds what it would add as the only condition of the query;
if the type of its field is known, then they fit that type, and a date keyword stands only where
there are timestamps or dates. -/
theorem params_fit_catalog {text : String} {q : Query} {a : Artifact}
    (hq : Query.parse text = .ok q) {backend : Backend} (hbackend : backend ≠ .arangoDb)
    (now : Time.Timestamp) (ha : q.compile backend .parameterized now = .ok a) :
    ∃ contributions : List (List Param),
      List.Forall₂ (fun c params =>
        (∃ b, Query.compile { q with conditions := [.compare .first c] } backend .parameterized
          now = .ok b ∧ b.params = params) ∧
        ∀ type, q.entity.fieldType? c.field = some type →
          (∀ p ∈ params, p.Fits type.element) ∧
          ∀ word, .keyword word ∈ c.value.scalars →
            type.element = .timestamptz ∨ type.element = .date)
        (comparisonsOf q.conditions) contributions ∧
      a.params = contributions.flatten := by
  have hd : (q.context backend now).dialect.IsSql := backend.isSql_dialect hbackend
  obtain ⟨ps, hps, rfl⟩ := compile_eq_ok_iff.1 ha
  obtain ⟨qs, ⟨pss, hpss, hparams, -⟩, heq⟩ := pieces_joins hps
  refine ⟨pss.map Piece.params, ?_, heq.trans hparams⟩
  rw [List.forall₂_map_right_iff]
  have hformed := (List.forall₂_and_left _ _).2 ⟨(Query.parse_formed hq).comparisons, hpss⟩
  refine hformed.imp ?_
  rintro c qs ⟨hc, hqs⟩
  exact ⟨compile_single hps hqs, fun type htype => Compiler.comparison_fits hd hc.operand htype hqs⟩

/-- A range that a float widens, a keyword beside a date, and a list of timestamps. -/
theorem params_fit_catalog_widened : ∃ q a contributions,
    Query.parse "show cpu_metrics where usage_percent between 1 and 2.5 and date(timestamp) = today and timestamp in ('2025-01-01T12:00:00+02:00')" =
      .ok q ∧
    q.compile .clickHouse .parameterized (.midnight ⟨2024, 1, 1⟩) = .ok a ∧
    a.statement = "SELECT * FROM cpu_metrics WHERE usage_percent BETWEEN $1 AND $2 AND toDate(timestamp) = today() AND timestamp IN $3" ∧
    Entity.cpuMetrics.fieldType? "usage_percent" = some .float ∧
    Entity.cpuMetrics.fieldType? "date(timestamp)" = some .date ∧
    Entity.cpuMetrics.fieldType? "timestamp" = some .timestamptz ∧
    List.Forall₂ (fun c params => ∀ type, q.entity.fieldType? c.field = some type →
        ∀ p ∈ params, p.Fits type.element) (comparisonsOf q.conditions) contributions ∧
    a.params = contributions.flatten := by
  obtain ⟨q, a, hq, ha, hstatement⟩ := exists_of_statement? (show statement?
      "show cpu_metrics where usage_percent between 1 and 2.5 and date(timestamp) = today and timestamp in ('2025-01-01T12:00:00+02:00')"
      .clickHouse .parameterized (.midnight ⟨2024, 1, 1⟩) = some
      "SELECT * FROM cpu_metrics WHERE usage_percent BETWEEN $1 AND $2 AND toDate(timestamp) = today() AND timestamp IN $3"
      by decide +kernel)
  obtain ⟨contributions, hcontributions, hparams⟩ :=
    params_fit_catalog hq (by decide) (.midnight ⟨2024, 1, 1⟩) ha
  refine ⟨q, a, contributions, hq, ha, hstatement, ?_, ?_, ?_,
    hcontributions.imp fun _ _ h type htype => (h.2 type htype).1, hparams⟩
  all_goals decide +kernel

end Query

end NetQuery
