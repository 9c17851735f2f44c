import NetQuery.Proofs.Fields
import NetQuery.Statement.Compile

/-!
# What compiling does

Compiling is a row of steps that may each fail. The lemmas here take a success apart into the
successes of its steps and put it together again, so that later proofs never open the compiler.
A comparison becomes a template, chosen by its operator, around the field and at most two operands;
an operand is a native word of the backend or a value. A chain becomes what its comparisons become,
with words and parentheses between them.
-/

namespace NetQuery

/-! ## Steps that may fail -/

section Steps

variable {ε δ α β : Type} {x : Except ε α}

theorem bind_eq_ok_iff {f : α → Except ε β} {b : β} :
    (x >>= f) = .ok b ↔ ∃ a, x = .ok a ∧ f a = .ok b := by
  cases x with
  | error e => simp [bind, Except.bind]
  | ok a => simp [bind, Except.bind]

theorem mapError_eq_ok_iff {f : ε → δ} {a : α} : x.mapError f = .ok a ↔ x = .ok a := by
  cases x with
  | error e => simp [Except.mapError]
  | ok a => simp [Except.mapError]

theorem map_eq_ok_iff {f : α → β} {b : β} : x.map f = .ok b ↔ ∃ a, x = .ok a ∧ f a = b := by
  cases x with
  | error e => simp [Except.map]
  | ok a => simp [Except.map]

theorem bind_eq_error_iff {f : α → Except ε β} {e : ε} :
    (x >>= f) = .error e ↔ x = .error e ∨ ∃ a, x = .ok a ∧ f a = .error e := by
  cases x with
  | error e' => simp [bind, Except.bind]
  | ok a => simp [bind, Except.bind]

theorem mapError_eq_error_iff {f : ε → δ} {d : δ} :
    x.mapError f = .error d ↔ ∃ e, x = .error e ∧ f e = d := by
  cases x with
  | error e => simp [Except.mapError]
  | ok a => simp [Except.mapError]

theorem map_eq_error_iff {f : α → β} {e : ε} : x.map f = .error e ↔ x = .error e := by
  cases x with
  | error e' => simp [Except.map]
  | ok a => simp [Except.map]

theorem mapError_bind (f : α → Except ε β) (g : ε → δ) :
    (x >>= f).mapError g = x.mapError g >>= fun a => (f a).mapError g := by
  cases x <;> rfl

theorem mapError_mapError {γ : Type} (f : ε → δ) (g : δ → γ) :
    (x.mapError f).mapError g = x.mapError (g ∘ f) := by
  cases x <;> rfl

theorem toOption_map_eq_some_iff {f : α → β} {b : β} :
    x.toOption.map f = some b ↔ ∃ a, x = .ok a ∧ f a = b := by
  cases x with
  | error e => simp [Except.toOption]
  | ok a => simp [Except.toOption]

end Steps

/-! ## Fields -/

namespace Compiler

open Lexer (IsName)

/-- What a field may become. -/
inductive Rendering (ctx : Context) : String → RenderedField → Prop where
  | column {name : String} (h : IsName name) :
      Rendering ctx name ⟨ctx.dialect.column name, ctx.entity.columnType? name, false⟩
  | call {name word : String} {args : List String} (h : IsName name) (hne : args ≠ [])
      (hargs : ∀ arg ∈ args, IsName arg)
      (hword : ctx.dialect.function (Text.lower name) = some (.call word)) :
      Rendering ctx (FieldRef.call name args)
        ⟨word ++ "(" ++ Text.join ", " (args.map ctx.dialect.column) ++ ")",
          functionType? (Text.lower name), false⟩
  | datePart {name word arg : String} {start length : Nat} (h : IsName name) (harg : IsName arg)
      (hword : ctx.dialect.function (Text.lower name) = some (.datePart word start length)) :
      Rendering ctx (FieldRef.call name [arg])
        ⟨word ++ "(" ++ (ctx.dialect.column arg ++ ", " ++ toString start ++ ", " ++
          toString length) ++ ")", functionType? (Text.lower name), true⟩

theorem renderField_cases {ctx : Context} {f : String} {field : RenderedField} (hf : IsField f)
    (h : renderField ctx f = .ok field) : Rendering ctx f field := by
  unfold renderField at h
  cases hf with
  | column hname =>
    rw [FieldRef.ofText_name hname] at h
    cases h
    exact .column hname
  | call hname hne hargs =>
    rw [FieldRef.ofText_call hname hne hargs] at h
    simp only at h
    split at h
    next => cases h
    next word hword =>
      cases h
      exact .call hname hne hargs hword
    next word start length hword =>
      split at h
      next hone =>
        obtain ⟨arg, rfl⟩ := List.length_eq_one_iff.1 hone
        cases h
        exact .datePart hname (hargs arg List.mem_cons_self) hword
      next => cases h

end Compiler

/-! ## Comparisons -/

/-- How a dialect writes an operator. -/
def Dialect.template (d : Dialect) : Operator → Template
  | .compare comparator => [.field, .text (" " ++ d.comparator comparator ++ " "), .operand]
  | .like => d.like
  | .contains => d.contains
  | .isIn => d.isIn
  | .between => d.between
  | .isNull => d.isNull
  | .isNotNull => d.isNotNull

namespace Compiler

variable {ctx : Context} {field : RenderedField}

/-- What a scalar operand may become. -/
inductive Scalar (ctx : Context) (field : RenderedField) : Value → List Piece → Prop where
  | native {keyword : DateKeyword} {word : String} (hpart : field.datePart = false)
      (hword : ctx.dialect.dateKeyword keyword = some word) :
      Scalar ctx field (.keyword keyword) [.text word]
  | date {keyword : DateKeyword}
      (h : field.datePart = true ∨ ctx.dialect.dateKeyword keyword = none) :
      Scalar ctx field (.keyword keyword) [.param (.text (keyword.dateText ctx.now))]
  | bound {value : Value} {type : ParamType} {param : Param} (hkind : value.kind ≠ .keyword)
      (h : value.bind type = .ok param) : Scalar ctx field value [.param param]

/-- What the operands of a comparison may become. -/
inductive Operands (ctx : Context) (field : RenderedField) :
    Operator → Value → List Piece → List Piece → Prop where
  | isNull (value : Value) : Operands ctx field .isNull value [] []
  | isNotNull (value : Value) : Operands ctx field .isNotNull value [] []
  | compare (comparator : Comparator) {value : Value} {operand : List Piece}
      (h : Scalar ctx field value operand) :
      Operands ctx field (.compare comparator) value operand []
  | like {value : Value} {operand : List Piece} (h : Scalar ctx field value operand) :
      Operands ctx field .like value operand []
  | contains {value : Value} {operand : List Piece} (h : Scalar ctx field value operand) :
      Operands ctx field .contains value operand []
  | isIn {items : List Value} {param : Param}
      (h : (Value.list items).bindList field.type = .ok param) :
      Operands ctx field .isIn (.list items) [.param param] []
  | between {low high : Value} {lower upper : List Piece} (hlow : Scalar ctx field low lower)
      (hhigh : Scalar ctx field high upper) :
      Operands ctx field .between (.list [low, high]) lower upper

/-- A list that can be bound is one of texts or one of integers. -/
theorem bindList_cases {items : List Value} {column : Option ColumnType} {param : Param}
    (h : (Value.list items).bindList column = .ok param) :
    (∃ texts bound, arrayTexts items = .ok texts ∧ param = .textArray bound) ∨
      ∃ numbers, arrayInts items = .ok numbers ∧ param = .intArray numbers := by
  obtain ⟨type, htype, h⟩ := bind_eq_ok_iff.1 h
  obtain ⟨bound, hbound, h⟩ := bind_eq_ok_iff.1 h
  have harray : type = .textArray ∨ type = .intArray := by
    unfold ParamType.infer at htype
    split at htype <;> simp_all
  rcases harray with rfl | rfl
  · obtain ⟨_, -, hbound⟩ := bind_eq_ok_iff.1 hbound
    obtain ⟨texts, htexts, rfl⟩ := map_eq_ok_iff.1 hbound
    left
    split at h
    · obtain ⟨standards, -, rfl⟩ := map_eq_ok_iff.1 h
      exact ⟨texts, standards, htexts, rfl⟩
    · cases h
      exact ⟨texts, texts, htexts, rfl⟩
  · obtain ⟨_, -, hbound⟩ := bind_eq_ok_iff.1 hbound
    obtain ⟨numbers, hnumbers, rfl⟩ := map_eq_ok_iff.1 hbound
    cases h
    exact Or.inr ⟨numbers, hnumbers, rfl⟩

/-- A scalar that is no keyword is bound with the tag that is forced on it or else with the one that
is inferred. -/
theorem scalar_bound {forced : Option ParamType} {value : Value} {ps : List Piece}
    (hkind : value.kind ≠ .keyword) (h : scalar ctx field forced value = .ok ps) :
    ∃ type param, (forced = some type ∨
        forced = none ∧ ParamType.infer value field.type = .ok type) ∧
      value.bind type = .ok param ∧ ps = [.param param] := by
  unfold scalar at h
  split at h
  next => exact absurd rfl hkind
  next =>
    cases forced with
    | some type =>
      obtain ⟨_, htype, h⟩ := bind_eq_ok_iff.1 h
      obtain ⟨param, hparam, hps⟩ := bind_eq_ok_iff.1 h
      cases htype
      exact ⟨type, param, Or.inl rfl, hparam, (Except.ok.inj hps).symm⟩
    | none =>
      obtain ⟨type, htype, h⟩ := bind_eq_ok_iff.1 h
      obtain ⟨param, hparam, hps⟩ := bind_eq_ok_iff.1 h
      exact ⟨type, param, Or.inr ⟨rfl, htype⟩, hparam, (Except.ok.inj hps).symm⟩

theorem scalar_cases {forced : Option ParamType} {value : Value} {ps : List Piece}
    (h : scalar ctx field forced value = .ok ps) : Scalar ctx field value ps := by
  by_cases hkind : value.kind = .keyword
  · obtain ⟨keyword, rfl⟩ : ∃ keyword, value = .keyword keyword := by
      cases value <;> cases hkind
      exact ⟨_, rfl⟩
    simp only [scalar] at h
    split at h
    next native hpart hword =>
      cases h
      exact .native hpart hword
    next hother =>
      cases h
      refine .date ?_
      cases hpart : field.datePart with
      | true => exact Or.inl rfl
      | false => exact Or.inr (Option.eq_none_iff_forall_ne_some.2 fun word => hother word hpart)
  · obtain ⟨type, param, -, hparam, rfl⟩ := scalar_bound hkind h
    exact .bound hkind hparam

/-- The operands of a comparison in pieces. The second part is the upper bound of a range. -/
def operandPieces (ctx : Context) (c : Comparison) (field : RenderedField) :
    Compiled (List Piece × List Piece) :=
  let lift := fun (e : Except BindError (List Piece)) => e.mapError CompileError.bind
  match c.operator, c.value with
  | .isNull, _ | .isNotNull, _ => .ok ([], [])
  | .isIn, .list items =>
    (((Value.list items).bindList field.type).mapError CompileError.bind).map
      fun param => ([.param param], [])
  | .between, .list [low, high] => do
    let lower ← lift (scalar ctx field (rangeType low high) low)
    let upper ← lift (scalar ctx field (rangeType low high) high)
    .ok (lower, upper)
  | .isIn, _ | .between, _ => .error (.invalidLiteral c.field c.operator .notAList)
  | .compare _, value | .like, value | .contains, value =>
    (lift (scalar ctx field none value)).map fun operand => (operand, [])

/-- An operator that compares two scalars has a symbol. -/
theorem symbol_compare (d : Dialect) (f : String) (comparator : Comparator) (v : Value) :
    symbol d ⟨f, .compare comparator, v⟩ = .ok (d.comparator comparator) :=
  rfl

/-- An operation is its operands with a template around them. -/
theorem operation_eq_map (c : Comparison) : operation ctx c field =
    (operandPieces ctx c field).map fun operands =>
      fill (ctx.dialect.template c.operator) field operands.1 operands.2 := by
  obtain ⟨f, op, v⟩ := c
  cases op with
  | isNull => rfl
  | isNotNull => rfl
  | compare comparator =>
    simp only [operation, operandPieces, symbol_compare]
    cases scalar ctx field none v with
    | error e => rfl
    | ok operand =>
      have hfill : fill (ctx.dialect.template (.compare comparator)) field operand [] =
          .text field.expression :: .text (" " ++ ctx.dialect.comparator comparator ++ " ") ::
            operand := by
        simp [fill, Template.fill, Dialect.template]
      exact congrArg Except.ok hfill.symm
  | like =>
    simp only [operation, operandPieces]
    cases scalar ctx field none v <;> rfl
  | contains =>
    simp only [operation, operandPieces]
    cases scalar ctx field none v <;> rfl
  | isIn =>
    cases v with
    | list items =>
      simp only [operation, operandPieces]
      cases (Value.list items).bindList field.type <;> rfl
    | _ => rfl
  | between =>
    cases v with
    | list items =>
      rcases items with _ | ⟨low, _ | ⟨high, _ | ⟨_, _⟩⟩⟩
      · rfl
      · rfl
      · simp only [operation, operandPieces]
        cases scalar ctx field (rangeType low high) low with
        | error e => rfl
        | ok lower => cases scalar ctx field (rangeType low high) high <;> rfl
      · rfl
    | _ => rfl

theorem operandPieces_cases {c : Comparison} {operands : List Piece × List Piece}
    (h : operandPieces ctx c field = .ok operands) :
    Operands ctx field c.operator c.value operands.1 operands.2 := by
  unfold operandPieces at h
  generalize c.operator = operator at h ⊢
  generalize c.value = value at h ⊢
  simp only at h
  split at h
  next =>
    cases h
    exact .isNull _
  next =>
    cases h
    exact .isNotNull _
  next items =>
    obtain ⟨param, hparam, rfl⟩ := map_eq_ok_iff.1 h
    exact .isIn (mapError_eq_ok_iff.1 hparam)
  next low high =>
    obtain ⟨lower, hlower, h⟩ := bind_eq_ok_iff.1 h
    obtain ⟨upper, hupper, hoperands⟩ := bind_eq_ok_iff.1 h
    cases hoperands
    exact .between (scalar_cases (mapError_eq_ok_iff.1 hlower))
      (scalar_cases (mapError_eq_ok_iff.1 hupper))
  next => cases h
  next => cases h
  next comparator =>
    obtain ⟨operand, hoperand, rfl⟩ := map_eq_ok_iff.1 h
    exact .compare comparator (scalar_cases (mapError_eq_ok_iff.1 hoperand))
  next =>
    obtain ⟨pattern, hpattern, rfl⟩ := map_eq_ok_iff.1 h
    exact .like (scalar_cases (mapError_eq_ok_iff.1 hpattern))
  next =>
    obtain ⟨part, hpart, rfl⟩ := map_eq_ok_iff.1 h
    exact .contains (scalar_cases (mapError_eq_ok_iff.1 hpart))

theorem operation_cases {c : Comparison} {ps : List Piece} (h : operation ctx c field = .ok ps) :
    ∃ operand upper, Operands ctx field c.operator c.value operand upper ∧
      ps = fill (ctx.dialect.template c.operator) field operand upper := by
  rw [operation_eq_map] at h
  obtain ⟨operands, hoperands, rfl⟩ := map_eq_ok_iff.1 h
  exact ⟨operands.1, operands.2, operandPieces_cases hoperands, rfl⟩

/-- A comparison that compiles has a field that can be written and operands that can be bound. -/
theorem comparison_cases {c : Comparison} {ps : List Piece} (h : comparison ctx c = .ok ps) :
    ∃ field operand upper, renderField ctx c.field = .ok field ∧
      checkLiteral ctx.dialect c.operator c.value field.type = .ok () ∧
      Operands ctx field c.operator c.value operand upper ∧
      ps = fill (ctx.dialect.template c.operator) field operand upper := by
  obtain ⟨field, hfield, h⟩ := bind_eq_ok_iff.1 h
  obtain ⟨⟨⟩, hcheck, h⟩ := bind_eq_ok_iff.1 h
  obtain ⟨operand, upper, hoperands, hps⟩ := operation_cases h
  exact ⟨field, operand, upper, hfield, mapError_eq_ok_iff.1 hcheck, hoperands, hps⟩

/-! ## Chains -/

theorem condition_compare_eq_ok_iff {link : Link} {c : Comparison} {ps : List Piece} :
    condition ctx (.compare link c) = .ok ps ↔
      ∃ qs, comparison ctx c = .ok qs ∧ linkPieces ctx.dialect link ++ qs = ps := by
  simp [condition, bind_eq_ok_iff]

theorem condition_group_eq_ok_iff {link : Link} {members : List Condition} {ps : List Piece} :
    condition ctx (.group link members) = .ok ps ↔
      ∃ qs, chain ctx members = .ok qs ∧
        linkPieces ctx.dialect link ++ .text "(" :: (qs ++ [.text ")"]) = ps := by
  simp [condition, bind_eq_ok_iff]

theorem chain_cons_eq_ok_iff {c : Condition} {cs : List Condition} {ps : List Piece} :
    chain ctx (c :: cs) = .ok ps ↔
      ∃ qs rs, condition ctx c = .ok qs ∧ chain ctx cs = .ok rs ∧ qs ++ rs = ps := by
  simp [chain, bind_eq_ok_iff]

end Compiler

mutual

/-- The comparisons of a condition, from left to right. -/
def Condition.comparisons : Condition → List Comparison
  | .compare _ c => [c]
  | .group _ members => comparisonsOf members

/-- The comparisons of a chain, from left to right, those of a group in its place. -/
def comparisonsOf : List Condition → List Comparison
  | [] => []
  | c :: cs => c.comparisons ++ comparisonsOf cs

end

/-- The text between the comparisons of a chain. -/
def Dialect.joints (d : Dialect) : List Piece :=
  [.text (" " ++ d.andWord ++ " "), .text (" " ++ d.orWord ++ " "), .text "(", .text ")"]

theorem Piece.params_append (ps qs : List Piece) : params (ps ++ qs) = params ps ++ params qs := by
  induction ps with
  | nil => rfl
  | cons p ps ih =>
    cases p with
    | text s => exact ih
    | param p => exact congrArg (p :: ·) ih

namespace Compiler

variable {ctx : Context}

/-- The pieces `ps` are those of the comparisons `cs`, in order, with nothing but joints between
them. -/
def Joins (ctx : Context) (cs : List Comparison) (ps : List Piece) : Prop :=
  ∃ pss : List (List Piece), List.Forall₂ (fun c qs => comparison ctx c = .ok qs) cs pss ∧
    Piece.params ps = (pss.map Piece.params).flatten ∧
    ∀ p ∈ ps, p ∈ ctx.dialect.joints ∨ ∃ c ∈ cs, ∃ qs, comparison ctx c = .ok qs ∧ p ∈ qs

theorem Joins.append {cs ds : List Comparison} {ps qs : List Piece} (hp : Joins ctx cs ps)
    (hq : Joins ctx ds qs) : Joins ctx (cs ++ ds) (ps ++ qs) := by
  obtain ⟨pss, hps, hparams, hmem⟩ := hp
  obtain ⟨qss, hqs, hparams', hmem'⟩ := hq
  refine ⟨pss ++ qss, List.rel_append hps hqs, ?_, ?_⟩
  · rw [Piece.params_append, hparams, hparams', List.map_append, List.flatten_append]
  · intro p hp
    rcases List.mem_append.1 hp with hp | hp
    · rcases hmem p hp with hjoint | ⟨c, hc, hin⟩
      · exact Or.inl hjoint
      · exact Or.inr ⟨c, List.mem_append_left _ hc, hin⟩
    · rcases hmem' p hp with hjoint | ⟨c, hc, hin⟩
      · exact Or.inl hjoint
      · exact Or.inr ⟨c, List.mem_append_right _ hc, hin⟩

theorem Joins.comparison {c : Comparison} {ps : List Piece} (h : comparison ctx c = .ok ps) :
    Joins ctx [c] ps :=
  ⟨[ps], .cons h .nil, by simp, fun _ hp => Or.inr ⟨c, List.mem_cons_self, ps, h, hp⟩⟩

/-- Text between comparisons adds no comparison. -/
theorem Joins.joint {s : String} (h : .text s ∈ ctx.dialect.joints) : Joins ctx [] [.text s] :=
  ⟨[], .nil, rfl, fun _ hp => Or.inl (List.mem_singleton.1 hp ▸ h)⟩

theorem joins_linkPieces (link : Link) : Joins ctx [] (linkPieces ctx.dialect link) := by
  cases link with
  | first => exact ⟨[], .nil, rfl, by simp [linkPieces]⟩
  | and => exact .joint (by simp [Dialect.joints])
  | or => exact .joint (by simp [Dialect.joints])

mutual

theorem condition_joins {c : Condition} {ps : List Piece} (h : condition ctx c = .ok ps) :
    Joins ctx c.comparisons ps := by
  cases c with
  | compare link c =>
    obtain ⟨qs, hqs, rfl⟩ := condition_compare_eq_ok_iff.1 h
    exact (joins_linkPieces link).append (.comparison hqs)
  | group link members =>
    obtain ⟨qs, hqs, rfl⟩ := condition_group_eq_ok_iff.1 h
    have hopen : Joins ctx [] [.text "("] := .joint (by simp [Dialect.joints])
    have hclose : Joins ctx [] [.text ")"] := .joint (by simp [Dialect.joints])
    have hinside := hopen.append ((chain_joins hqs).append hclose)
    rw [List.append_nil] at hinside
    exact (joins_linkPieces link).append hinside

/-- A chain of conditions becomes what its comparisons become, each on its own. -/
theorem chain_joins {cs : List Condition} {ps : List Piece} (h : chain ctx cs = .ok ps) :
    Joins ctx (comparisonsOf cs) ps := by
  cases cs with
  | nil =>
    cases h
    exact ⟨[], .nil, rfl, by simp⟩
  | cons c cs =>
    obtain ⟨qs, rs, hqs, hrs, rfl⟩ := chain_cons_eq_ok_iff.1 h
    exact (condition_joins hqs).append (chain_joins hrs)

end

/-! ## Queries -/

theorem filter_eq_ok_iff {cs : List Condition} {filter : Option (List Piece)} :
    Compiler.filter ctx cs = .ok filter ↔
      (cs = [] ∧ filter = none) ∨ (cs ≠ [] ∧ ∃ ps, chain ctx cs = .ok ps ∧ filter = some ps) := by
  cases cs with
  | nil => simp [Compiler.filter, eq_comm]
  | cons c cs =>
    simp only [Compiler.filter, map_eq_ok_iff]
    simp [eq_comm]

theorem order_cons_eq_ok_iff {item : OrderItem} {items : List OrderItem} {keys : List String} :
    order ctx (item :: items) = .ok keys ↔ ∃ field rest, renderField ctx item.field = .ok field ∧
      order ctx items = .ok rest ∧
      (field.expression ++ " " ++ directionWord item.direction) :: rest = keys := by
  simp [order, bind_eq_ok_iff]

end Compiler

namespace Query

variable {q : Query} {backend : Backend} {now : Time.Timestamp}

/-- Where and when the parts of a query are compiled. -/
def context (q : Query) (backend : Backend) (now : Time.Timestamp) : Compiler.Context :=
  ⟨backend.dialect, q.entity, now⟩

/-- A query compiles if and only if its entity is stored in the backend, its page can be found, and
its conditions and the keys of its ordering compile. -/
theorem pieces_eq_ok_iff {ps : List Piece} :
    q.pieces backend now = .ok ps ↔ ∃ source offset filter order,
      backend.dialect.source q.entity = some source ∧
      Paging.offsetOf q.appliedPage q.appliedLimit = .ok offset ∧
      Compiler.filter (q.context backend now) q.conditions = .ok filter ∧
      Compiler.order (q.context backend now) q.appliedOrder = .ok order ∧
      Clauses.statement ⟨q.kind, source, filter, order, q.appliedLimit, offset⟩
        backend.dialect.shape = ps := by
  unfold pieces clauses
  cases hsource : backend.dialect.source q.entity with
  | none => simp [bind, Except.bind]
  | some source =>
    simp only [bind_eq_ok_iff, mapError_eq_ok_iff]
    constructor
    · rintro ⟨clauses, ⟨_, hs, offset, ho, filter, hf, order, hk, hclauses⟩, hps⟩
      cases hs
      cases hclauses
      cases hps
      exact ⟨source, offset, filter, order, rfl, ho, hf, hk, rfl⟩
    · rintro ⟨_, offset, filter, order, hs, ho, hf, hk, rfl⟩
      cases hs
      exact ⟨_, ⟨source, rfl, offset, ho, filter, hf, order, hk, rfl⟩, rfl⟩

theorem compile_eq_ok_iff {mode : Mode} {a : Artifact} :
    q.compile backend mode now = .ok a ↔ ∃ ps, q.pieces backend now = .ok ps ∧
      ⟨Piece.write backend.dialect mode ps, Piece.bound mode ps, q.viz,
        Paging.pending q.appliedPage q.appliedLimit⟩ = a := by
  simp [compile, bind_eq_ok_iff]

/-- Compiling fails, in either mode, exactly as the pieces fail. -/
theorem compile_eq_error_iff {mode : Mode} {e : CompileError} :
    q.compile backend mode now = .error e ↔ q.pieces backend now = .error e := by
  unfold compile
  cases q.pieces backend now with
  | error e' => simp [bind, Except.bind]
  | ok ps => simp [bind, Except.bind]

end Query

end NetQuery
