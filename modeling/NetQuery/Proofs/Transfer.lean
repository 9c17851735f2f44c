import NetQuery.Proofs.Checks
import NetQuery.Proofs.Placeholders

/-!
# From one context to another

The same query is compiled for several engines and at several times. Here is what these have in
common: if every scalar that can be written in one context can be written in another, then so can
every operation, and a filter whose comparisons can all be written can be written as a whole. Only
date keywords depend on the context themselves; any other operand depends on the type of its field
alone, so two contexts that agree on date keywords agree on all operands.
-/

namespace NetQuery

/-- The operands of a comparison, from left to right. A range has two, a null check none, and a list
is one operand. -/
def Comparison.operands (c : Comparison) : List Value :=
  match c.operator, c.value with
  | .isNull, _ | .isNotNull, _ => []
  | .between, .list bounds => bounds
  | _, value => [value]

namespace Compiler

variable {ctx ctx' : Context} {field field' : RenderedField}

/-- What a slot of an operand adds to the values of a comparison. -/
def slotParams (operand upper : List Piece) : Slot → List Param
  | .operand => Piece.params operand
  | .upper => Piece.params upper
  | _ => []

/-- The values of a comparison are those of its operands, whatever a backend writes around them. -/
theorem params_template {backend : Backend} (hctx : ctx.dialect = backend.dialect) (op : Operator)
    (operand upper : List Piece) :
    Piece.params (fill (ctx.dialect.template op) field operand upper) =
      op.slots.flatMap (slotParams operand upper) := by
  rw [params_fill, hctx, filter_template]
  cases op <;> rfl

/-- If two contexts write scalars so that their values are related, they write operations so that
their values are. Lists are bound by the type of the field alone. -/
theorem operation_transfer {R : List Value → List Param → List Param → Prop} (hnil : R [] [] [])
    (happend : ∀ {vs vs' ps ps' qs qs'}, R vs ps qs → R vs' ps' qs' →
      R (vs ++ vs') (ps ++ ps') (qs ++ qs'))
    (hscalar : ∀ {forced v ps}, v.IsScalar → scalar ctx field forced v = .ok ps →
      ∃ qs, scalar ctx' field' forced v = .ok qs ∧ R [v] (Piece.params ps) (Piece.params qs))
    (hlist : ∀ {items param}, (Value.list items).bindList field.type = .ok param →
      R [.list items] [param] [param])
    (htype : field'.type = field.type) {backend backend' : Backend}
    (hctx : ctx.dialect = backend.dialect) (hctx' : ctx'.dialect = backend'.dialect)
    {c : Comparison} (hc : Operand c.operator c.value) {ps : List Piece}
    (h : operation ctx c field = .ok ps) :
    ∃ qs, operation ctx' c field' = .ok qs ∧
      R c.operands (Piece.params ps) (Piece.params qs) := by
  -- Both contexts write the operands in the same order, so what stands around them does not matter.
  have hfill : ∀ (op : Operator) {operand upper operand' upper' : List Piece} {vs : List Value},
      R vs (op.slots.flatMap (slotParams operand upper))
        (op.slots.flatMap (slotParams operand' upper')) →
      R vs (Piece.params (fill (ctx.dialect.template op) field operand upper))
        (Piece.params (fill (ctx'.dialect.template op) field' operand' upper')) := by
    intro op operand upper operand' upper' vs hrelated
    rw [params_template hctx, params_template hctx']
    exact hrelated
  obtain ⟨f, op, v⟩ := c
  cases hc with
  | isNull =>
    cases h
    exact ⟨_, rfl, hfill .isNull hnil⟩
  | isNotNull =>
    cases h
    exact ⟨_, rfl, hfill .isNotNull hnil⟩
  | compare comparator hv =>
    obtain ⟨symbol, -, h⟩ := bind_eq_ok_iff.1 h
    obtain ⟨operand, hoperand, hps⟩ := bind_eq_ok_iff.1 h
    obtain ⟨qs, hqs, hrelated⟩ := hscalar hv (mapError_eq_ok_iff.1 hoperand)
    cases hps
    exact ⟨_, bind_eq_ok_iff.2 ⟨_, symbol_compare .., bind_eq_ok_iff.2
      ⟨qs, mapError_eq_ok_iff.2 hqs, rfl⟩⟩, hrelated⟩
  | like hv =>
    obtain ⟨operand, hoperand, hps⟩ := bind_eq_ok_iff.1 h
    obtain ⟨qs, hqs, hrelated⟩ := hscalar hv (mapError_eq_ok_iff.1 hoperand)
    cases hps
    refine ⟨_, bind_eq_ok_iff.2 ⟨qs, mapError_eq_ok_iff.2 hqs, rfl⟩, hfill .like ?_⟩
    simpa [Operator.slots, slotParams, Comparison.operands] using hrelated
  | contains s =>
    obtain ⟨operand, hoperand, hps⟩ := bind_eq_ok_iff.1 h
    obtain ⟨qs, hqs, hrelated⟩ := hscalar (v := .text s) trivial (mapError_eq_ok_iff.1 hoperand)
    cases hps
    refine ⟨_, bind_eq_ok_iff.2 ⟨qs, mapError_eq_ok_iff.2 hqs, rfl⟩, hfill .contains ?_⟩
    simpa [Operator.slots, slotParams, Comparison.operands] using hrelated
  | between hlow hhigh =>
    obtain ⟨lower, hlower, h⟩ := bind_eq_ok_iff.1 h
    obtain ⟨upper, hupper, hps⟩ := bind_eq_ok_iff.1 h
    obtain ⟨qs, hqs, hrelated⟩ := hscalar hlow (mapError_eq_ok_iff.1 hlower)
    obtain ⟨rs, hrs, hrelated'⟩ := hscalar hhigh (mapError_eq_ok_iff.1 hupper)
    cases hps
    refine ⟨_, bind_eq_ok_iff.2 ⟨qs, mapError_eq_ok_iff.2 hqs,
      bind_eq_ok_iff.2 ⟨rs, mapError_eq_ok_iff.2 hrs, rfl⟩⟩, hfill .between ?_⟩
    simpa [Operator.slots, slotParams, Comparison.operands] using happend hrelated hrelated'
  | isIn hne hlength hscalars =>
    obtain ⟨param, hparam, hps⟩ := bind_eq_ok_iff.1 h
    cases hps
    have hbound := mapError_eq_ok_iff.1 hparam
    have hbound' := htype ▸ hbound
    refine ⟨_, bind_eq_ok_iff.2 ⟨param, mapError_eq_ok_iff.2 hbound', rfl⟩, hfill .isIn ?_⟩
    exact hlist hbound

/-! ## Operands without the text around them -/

/-- Of the scalars, only date keywords look at more than the type of their field. -/
theorem scalar_congr (htype : field'.type = field.type) {forced : Option ParamType} {v : Value}
    (h : ∀ word, v = .keyword word → scalar ctx' field' forced v = scalar ctx field forced v) :
    scalar ctx' field' forced v = scalar ctx field forced v := by
  cases v with
  | keyword word => exact h word rfl
  | _ => simp only [scalar, htype]

theorem operandPieces_congr (htype : field'.type = field.type) {c : Comparison}
    (h : ∀ forced word, .keyword word ∈ c.value.scalars →
      scalar ctx' field' forced (.keyword word) = scalar ctx field forced (.keyword word)) :
    operandPieces ctx' c field' = operandPieces ctx c field := by
  obtain ⟨f, op, v⟩ := c
  have hvalue : scalar ctx' field' none v = scalar ctx field none v := by
    refine scalar_congr htype ?_
    rintro word rfl
    exact h none word List.mem_cons_self
  cases op with
  | isNull => rfl
  | isNotNull => rfl
  | compare comparator => simp only [operandPieces, hvalue]
  | like => simp only [operandPieces, hvalue]
  | contains => simp only [operandPieces, hvalue]
  | isIn =>
    cases v with
    | list items => simp only [operandPieces, htype]
    | _ => rfl
  | between =>
    cases v with
    | list items =>
      rcases items with _ | ⟨low, _ | ⟨high, _ | ⟨_, _⟩⟩⟩
      · rfl
      · rfl
      · have hbound : ∀ bound ∈ [low, high], ∀ forced,
            scalar ctx' field' forced bound = scalar ctx field forced bound := by
          intro bound hbound forced
          refine scalar_congr htype ?_
          rintro word rfl
          exact h forced word hbound
        simp only [operandPieces, hbound low (by simp), hbound high (by simp)]
      · rfl
    | _ => rfl

/-! ## Filters -/

mutual

theorem condition_congr (hdialect : ctx'.dialect = ctx.dialect) {c : Condition}
    (h : ∀ x ∈ c.comparisons, comparison ctx' x = comparison ctx x) :
    condition ctx' c = condition ctx c := by
  cases c with
  | compare link c => rw [condition, condition, hdialect, h c List.mem_cons_self]
  | group link members => rw [condition, condition, hdialect, chain_congr hdialect h]

/-- Two contexts that write each comparison of a chain alike write the chain alike. -/
theorem chain_congr (hdialect : ctx'.dialect = ctx.dialect) {cs : List Condition}
    (h : ∀ x ∈ comparisonsOf cs, comparison ctx' x = comparison ctx x) :
    chain ctx' cs = chain ctx cs := by
  cases cs with
  | nil => rfl
  | cons c cs =>
    have hc : ∀ x ∈ c.comparisons, comparison ctx' x = comparison ctx x :=
      fun x hx => h x (List.mem_append_left _ hx)
    have hcs : ∀ x ∈ comparisonsOf cs, comparison ctx' x = comparison ctx x :=
      fun x hx => h x (List.mem_append_right _ hx)
    rw [chain, chain, condition_congr hdialect hc, chain_congr hdialect hcs]

end

theorem filter_congr (hdialect : ctx'.dialect = ctx.dialect) {cs : List Condition}
    (h : ∀ x ∈ comparisonsOf cs, comparison ctx' x = comparison ctx x) :
    filter ctx' cs = filter ctx cs := by
  cases cs with
  | nil => rfl
  | cons c cs => exact congrArg (Except.map some) (chain_congr hdialect h)

/-- A filter that compiles in one context compiles in any other in which its comparisons do. -/
theorem filter_transfer {cs : List Condition}
    (hcs : ∀ c ∈ comparisonsOf cs, ∀ ps, comparison ctx c = .ok ps →
      ∃ qs, comparison ctx' c = .ok qs)
    {pieces : Option (List Piece)} (h : Compiler.filter ctx cs = .ok pieces) :
    ∃ pieces', Compiler.filter ctx' cs = .ok pieces' := by
  have hall := exists_filter_iff.1 ⟨pieces, h⟩
  refine exists_filter_iff.2 fun c hc => ?_
  obtain ⟨ps, hps⟩ := hall c hc
  exact hcs c hc ps hps

end Compiler

end NetQuery
