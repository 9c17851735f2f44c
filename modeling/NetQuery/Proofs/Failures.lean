import NetQuery.Proofs.Binding
import NetQuery.Proofs.Checks
import NetQuery.Proofs.Pieces

/-!
# How compiling can fail

The compiler is written for any query, and so it has answers for operands that no text can spell: an
empty list, a range of three, a comparison with nothing. A query that was read from a text is well
formed, and none of these answers is ever given for it. What is left are the errors that tell a
reader what to change.
-/

namespace NetQuery

/-- An error that tells the reader of a query what to change in it, and not that the query was put
together wrongly. -/
def BindError.isUserFacing : BindError → Bool
  | .emptyArray | .unbindable _ => false
  | _ => true

/-- A fault that tells the reader of a query what to change in it, and not that the query was put
together wrongly. -/
def LiteralFault.isUserFacing : LiteralFault → Bool
  | .notAList | .noComparison => false
  | _ => true

/-- An error that tells the reader of a query what to change in it, and not that the query was put
together wrongly. A text names no page, so a page is never the reason. -/
def CompileError.isUserFacing : CompileError → Bool
  | .invalidCursor _ => false
  | .invalidLiteral _ _ fault => fault.isUserFacing
  | .bind error => error.isUserFacing
  | _ => true

/-! ## Binding -/

theorem normalizeTimestamp_error {s : String} {e : BindError}
    (h : normalizeTimestamp s = .error e) : e.isUserFacing := by
  obtain ⟨-, rfl⟩ := normalizeTimestamp_eq_error_iff.1 h
  rfl

/-- A value with an inferred tag is refused for its text or for its elements. -/
theorem Value.Refused.isUserFacing {v : Value} {type : ParamType} {e : BindError}
    (h : v.Refused type e) : e.isUserFacing := by
  cases h with
  | mixed => rfl
  | timestamp => rfl

/-- A scalar is of a kind that can be bound, so only its type or its text can be wrong. -/
theorem Value.IsScalar.bind_error {v : Value} {type : ParamType} {e : BindError} (hv : v.IsScalar)
    (hkind : v.kind ≠ .keyword) (h : v.bind type = .error e) : e.isUserFacing := by
  cases v with
  | text s =>
    cases type with
    | text => cases h
    | timestamptz =>
      rw [Value.bind] at h
      exact normalizeTimestamp_error (map_eq_error_iff.1 h)
    | _ => cases h; rfl
  | bool flag => cases type <;> cases h <;> rfl
  | int n => cases type <;> cases h <;> rfl
  | float x => cases type <;> cases h <;> rfl
  | keyword word => exact absurd rfl hkind
  | list items => exact hv.elim
  | null => exact hv.elim

theorem Value.IsScalar.infer_ok {v : Value} (hv : v.IsScalar) (hkind : v.kind ≠ .keyword)
    (column : Option ColumnType) : ∃ type, ParamType.infer v column = .ok type := by
  cases v with
  | keyword word => exact absurd rfl hkind
  | list items => exact hv.elim
  | null => exact hv.elim
  | _ => exact ⟨_, rfl⟩

theorem infer_list_error {items : List Value} {column : Option ColumnType} {e : BindError}
    (hne : items ≠ []) (h : ParamType.infer (.list items) column = .error e) : e.isUserFacing := by
  obtain ⟨first, rest, rfl⟩ := List.exists_cons_of_ne_nil hne
  cases first <;> cases h <;> rfl

/-- A list with a first element fails to be bound for what its elements are. -/
theorem bindList_error {items : List Value} {column : Option ColumnType} {e : BindError}
    (hne : items ≠ []) (h : (Value.list items).bindList column = .error e) : e.isUserFacing := by
  rcases bind_eq_error_iff.1 h with hinfer | ⟨type, htype, h⟩
  · exact infer_list_error hne hinfer
  · rcases bind_eq_error_iff.1 h with hbind | ⟨param, -, h⟩
    · exact ((bind_eq_error_iff_refused htype).1 hbind).isUserFacing
    · split at h
      · obtain ⟨s, -, rfl⟩ := normalizeTimestamps_eq_error_iff.1 (map_eq_error_iff.1 h)
        rfl
      · cases h

/-! ## Comparisons -/

namespace Compiler

variable {ctx : Context}

theorem renderField_error {f : String} {e : CompileError} (h : renderField ctx f = .error e) :
    ∃ function, e = .unsupportedFunction function ctx.dialect.backend := by
  unfold renderField at h
  simp only at h
  split at h
  · cases h
  · split at h
    · cases h
      exact ⟨_, rfl⟩
    · cases h
    · split at h
      · cases h
      · cases h
        exact ⟨_, rfl⟩

/-- The check of a literal never asks whether it is a list, or for a symbol. -/
theorem checkLiteral_error {d : Dialect} {operator : Operator} {value : Value}
    {column : Option ColumnType} {fault : LiteralFault}
    (h : checkLiteral d operator value column = .error fault) : fault.isUserFacing := by
  rcases bind_eq_error_iff.1 h with hoperator | ⟨_, -, h⟩
  · have hpattern : ∀ c : Bool, (if c then Except.ok () else .error .patternNotText) =
        Except.error fault → fault.isUserFacing := by
      rintro (_ | _) h
      · cases h
        rfl
      · cases h
    unfold checkOperator at hoperator
    split at hoperator
    next => exact hpattern _ hoperator
    next => exact hpattern _ hoperator
    next =>
      split at hoperator
      next =>
        cases hoperator
        rfl
      next => cases hoperator
  · split at h
    next =>
      unfold checkColumn at h
      split at h
      next => cases h
      next => cases h
      next => cases h
      next =>
        split at h
        next =>
          cases h
          rfl
        next => cases h
    next => cases h

theorem scalar_error {field : RenderedField} {forced : Option ParamType} {v : Value} {e : BindError}
    (hv : v.IsScalar) (h : scalar ctx field forced v = .error e) : e.isUserFacing := by
  unfold scalar at h
  split at h
  next word =>
    -- A date keyword becomes a native word or the text of its date; neither can fail.
    split at h <;> cases h
  next hnot =>
    have hkind : v.kind ≠ .keyword := by
      intro hkind
      cases v <;> simp_all [Value.kind]
    have hbind : ∀ {type : ParamType},
        (v.bind type >>= fun param => .ok [Piece.param param]) = .error e → e.isUserFacing := by
      intro type h
      rcases bind_eq_error_iff.1 h with hbind | ⟨param, -, h⟩
      · exact hv.bind_error hkind hbind
      · cases h
    cases forced with
    | some type =>
      rcases bind_eq_error_iff.1 h with htype | ⟨_, -, h⟩
      · cases htype
      · exact hbind h
    | none =>
      rcases bind_eq_error_iff.1 h with htype | ⟨type, -, h⟩
      · obtain ⟨type, hinfer⟩ := hv.infer_ok hkind field.type
        rw [hinfer] at htype
        cases htype
      · exact hbind h

/-- An operand of the right form fails only for what it is. -/
theorem operation_error {c : Comparison} {field : RenderedField} {e : CompileError}
    (hc : Operand c.operator c.value) (h : operation ctx c field = .error e) : e.isUserFacing := by
  have hscalar : ∀ {forced : Option ParamType} {v : Value} {k : List Piece → Compiled (List Piece)},
      v.IsScalar → (∀ ps, k ps = .error e → e.isUserFacing) →
      (((scalar ctx field forced v).mapError CompileError.bind) >>= k) = .error e →
      e.isUserFacing := by
    intro forced v k hv hk h
    rcases bind_eq_error_iff.1 h with h | ⟨ps, -, h⟩
    · obtain ⟨error, herror, rfl⟩ := mapError_eq_error_iff.1 h
      exact scalar_error hv herror
    · exact hk ps h
  obtain ⟨f, operator, value⟩ := c
  cases hc with
  | isNull => cases h
  | isNotNull => cases h
  | compare comparator hv =>
    -- A comparison of two scalars has a symbol, so its operand is all that can be wrong.
    rcases bind_eq_error_iff.1 h with h | ⟨symbol, -, h⟩
    · cases h
    · exact hscalar hv (fun _ h => by cases h) h
  | like hv => exact hscalar hv (fun _ h => by cases h) h
  | contains s => exact hscalar (v := .text s) trivial (fun _ h => by cases h) h
  | between hlow hhigh =>
    exact hscalar hlow (fun _ h => hscalar hhigh (fun _ h => by cases h) h) h
  | isIn hne _ _ =>
    rcases bind_eq_error_iff.1 h with h | ⟨param, -, h⟩
    · obtain ⟨error, herror, rfl⟩ := mapError_eq_error_iff.1 h
      exact bindList_error hne herror
    · cases h

theorem comparison_error {c : Comparison} {e : CompileError} (hc : Operand c.operator c.value)
    (h : comparison ctx c = .error e) : e.isUserFacing := by
  rcases bind_eq_error_iff.1 h with hfield | ⟨field, -, h⟩
  · obtain ⟨function, rfl⟩ := renderField_error hfield
    rfl
  · rcases bind_eq_error_iff.1 h with hcheck | ⟨_, -, h⟩
    · obtain ⟨fault, hfault, rfl⟩ := mapError_eq_error_iff.1 hcheck
      exact checkLiteral_error hfault
    · exact operation_error hc h

end Compiler

/-! ## Queries -/

namespace Query

variable {q : Query} {backend : Backend} {now : Time.Timestamp}

theorem Formed.compile_error (hq : q.Formed) {mode : Mode} {e : CompileError}
    (h : q.compile backend mode now = .error e) : e.isUserFacing := by
  cases hsource : backend.dialect.source q.entity with
  | none =>
    rw [compile_of_source_eq_none hsource] at h
    cases h
    rfl
  | some source =>
    rcases (pieces_eq_error_iff hsource).1 (compile_eq_error_iff.1 h) with
      ⟨fault, hfault, -⟩ | ⟨-, hfilter | ⟨-, horder⟩⟩
    · have hpage : q.appliedPage = none := by
        unfold appliedPage
        split
        · exact hq.page
        · rfl
      rw [hpage] at hfault
      cases hfault
    · obtain ⟨x, hx, hxe⟩ := (Compiler.filter_eq_error_iff.1 hfilter).exists_error
      exact Compiler.comparison_error (hq.comparisons x hx).operand hxe
    · obtain ⟨item, -, hitem⟩ := (Compiler.order_eq_error_iff.1 horder).exists_error
      obtain ⟨function, rfl⟩ := Compiler.renderField_error hitem
      rfl

end Query

theorem LiteralFault.message_ne {fault : LiteralFault} (h : fault.isUserFacing) :
    fault.message ≠ "expected a list of values" ∧
      fault.message ≠ "operator has no comparison form" := by
  cases fault with
  | patternNotText => decide
  | orderedBool => decide
  | columnMismatch column found => cases column <;> cases found <;> decide
  | notAList => cases h
  | noComparison => cases h

/-- A query that was read from a text is well formed, and so it never fails to compile for a page,
for a list without elements, for a value that cannot be bound, or for an operand of the wrong
form. -/
theorem Query.formed_and_user_facing {text : String} {q : Query} (hq : Query.parse text = .ok q) :
    q.Formed ∧ ∀ (backend : Backend) (mode : Mode) (now : Time.Timestamp) (e : CompileError),
      q.compile backend mode now = .error e →
        (∀ fault, e ≠ .invalidCursor fault) ∧ e ≠ .bind .emptyArray ∧
        (∀ kind, e ≠ .bind (.unbindable kind)) ∧
        ∀ field operator fault, e = .invalidLiteral field operator fault →
          fault.message ≠ "expected a list of values" ∧
          fault.message ≠ "operator has no comparison form" := by
  have hformed := Query.parse_formed hq
  refine ⟨hformed, fun backend mode now e he => ?_⟩
  have huser := hformed.compile_error he
  refine ⟨?_, ?_, ?_, ?_⟩
  · rintro fault rfl
    cases huser
  · rintro rfl
    cases huser
  · rintro kind rfl
    cases huser
  · rintro field operator fault rfl
    exact LiteralFault.message_ne huser

/-- The error of a text that can be read but not compiled. -/
def Query.error? (text : String) (backend : Backend) (mode : Mode) (now : Time.Timestamp) :
    Option CompileError :=
  match Query.parse text with
  | .error _ => none
  | .ok q =>
    match q.compile backend mode now with
    | .error e => some e
    | .ok _ => none

theorem Query.exists_of_error? {text : String} {backend : Backend} {mode : Mode}
    {now : Time.Timestamp} {e : CompileError} (h : Query.error? text backend mode now = some e) :
    ∃ q, Query.parse text = .ok q ∧ q.compile backend mode now = .error e := by
  unfold Query.error? at h
  split at h
  next => cases h
  next q hq =>
    split at h
    next e' he =>
      cases h
      exact ⟨q, hq, he⟩
    next => cases h

/-- A keyword in a list is the one value of a text that cannot be bound; it is refused as an element
of the wrong type. -/
theorem Query.formed_and_user_facing_keyword : ∃ q,
    Query.parse "count devices where (ip in (today, 'x'))" = .ok q ∧ q.Formed ∧
    q.compile .arangoDb .parameterized (.midnight ⟨2024, 1, 1⟩) =
      .error (.bind (.typeMismatch .elements .keyword)) ∧
    ∀ kind, CompileError.bind (.typeMismatch .elements .keyword) ≠ .bind (.unbindable kind) := by
  obtain ⟨q, hq, he⟩ := exists_of_error? (show error?
      "count devices where (ip in (today, 'x'))" .arangoDb .parameterized (.midnight ⟨2024, 1, 1⟩) =
      some (.bind (.typeMismatch .elements .keyword)) by decide +kernel)
  obtain ⟨hformed, hfails⟩ := formed_and_user_facing hq
  exact ⟨q, hq, hformed, he, (hfails _ _ _ _ he).2.2.1⟩

end NetQuery
