import NetQuery.Proofs.Compiling

/-!
# The first check that fails

Compiling makes one check after the other, and its error is that of the first check that fails: the
entity, the page, the comparisons from left to right with those of a group in its place, the keys of
the ordering. A comparison is checked on its own. Neither the conditions before it nor the group in
which it stands have a say, so it fails as it would fail if it were the only condition of the query.
-/

namespace NetQuery

/-! ## Checks in a row -/

section FirstFails

variable {ε α β γ : Type} {check : α → Except ε β} {xs ys : List α} {e : ε}

/-- The first of `xs` that does not pass the check fails it with the error `e`. -/
def FirstFails (check : α → Except ε β) (xs : List α) (e : ε) : Prop :=
  ∃ before x after, xs = before ++ x :: after ∧ (∀ y ∈ before, ∃ b, check y = .ok b) ∧
    check x = .error e

theorem not_firstFails_nil : ¬ FirstFails check [] e := by
  rintro ⟨before, x, after, h, -⟩
  simp at h

theorem firstFails_cons_iff {x : α} : FirstFails check (x :: xs) e ↔
    check x = .error e ∨ (∃ b, check x = .ok b) ∧ FirstFails check xs e := by
  constructor
  · rintro ⟨before, y, after, h, hbefore, hy⟩
    cases before with
    | nil =>
      obtain ⟨rfl, rfl⟩ := List.cons.inj h
      exact Or.inl hy
    | cons z before =>
      obtain ⟨rfl, rfl⟩ := List.cons.inj h
      obtain ⟨hx, hbefore⟩ := List.forall_mem_cons.1 hbefore
      exact Or.inr ⟨hx, before, y, after, rfl, hbefore, hy⟩
  · rintro (hx | ⟨hx, before, y, after, rfl, hbefore, hy⟩)
    · exact ⟨[], x, xs, rfl, by simp, hx⟩
    · exact ⟨x :: before, y, after, rfl, List.forall_mem_cons.2 ⟨hx, hbefore⟩, hy⟩

theorem firstFails_append_iff : FirstFails check (xs ++ ys) e ↔
    FirstFails check xs e ∨ (∀ x ∈ xs, ∃ b, check x = .ok b) ∧ FirstFails check ys e := by
  induction xs with
  | nil => simp [not_firstFails_nil]
  | cons x xs ih =>
    rw [List.cons_append, firstFails_cons_iff, firstFails_cons_iff, ih, List.forall_mem_cons]
    tauto

theorem FirstFails.exists_error (h : FirstFails check xs e) : ∃ x ∈ xs, check x = .error e := by
  obtain ⟨before, x, after, rfl, -, hx⟩ := h
  exact ⟨x, by simp, hx⟩

/-- A row of checks fails somewhere or passes. -/
theorem forall_ok_iff : (∀ x ∈ xs, ∃ b, check x = .ok b) ↔ ∀ e, ¬ FirstFails check xs e := by
  induction xs with
  | nil => simp [not_firstFails_nil]
  | cons x xs ih =>
    simp only [List.forall_mem_cons, ih, firstFails_cons_iff]
    cases check x with
    | error e' => simp
    | ok b => simp

/-- What fails exactly as a row of checks fails succeeds exactly if all of them pass. -/
theorem exists_ok_iff_of_error_iff {y : Except ε γ}
    (h : ∀ e, y = .error e ↔ FirstFails check xs e) :
    (∃ c, y = .ok c) ↔ ∀ x ∈ xs, ∃ b, check x = .ok b := by
  rw [forall_ok_iff]
  cases y with
  | error e' => simpa using ⟨e', (h e').1 rfl⟩
  | ok c => simpa using fun e => mt (h e).2 (by simp)

theorem firstFails_congr {check' : α → Except ε γ}
    (h : ∀ x ∈ xs, ∀ e, check x = .error e ↔ check' x = .error e) :
    FirstFails check xs e ↔ FirstFails check' xs e := by
  induction xs with
  | nil => simp [not_firstFails_nil]
  | cons x xs ih =>
    obtain ⟨hx, hxs⟩ := List.forall_mem_cons.1 h
    have hok : (∃ b, check x = .ok b) ↔ ∃ c, check' x = .ok c := by
      cases hcheck : check x with
      | error e' => simp [(hx e').1 hcheck]
      | ok b =>
        cases hcheck' : check' x with
        | error e' => exact absurd ((hx e').2 hcheck') (by simp [hcheck])
        | ok c => simp
    rw [firstFails_cons_iff, firstFails_cons_iff, hx, hok, ih hxs]

end FirstFails

/-! ## Comparisons and keys -/

namespace Compiler

variable {ctx : Context}

mutual

theorem condition_eq_error_iff {c : Condition} {e : CompileError} :
    condition ctx c = .error e ↔ FirstFails (comparison ctx) c.comparisons e := by
  cases c with
  | compare link c =>
    rw [condition, Condition.comparisons, firstFails_cons_iff, bind_eq_error_iff]
    simp [not_firstFails_nil]
  | group link members =>
    rw [condition, Condition.comparisons, ← chain_eq_error_iff, bind_eq_error_iff]
    simp

/-- A chain fails at the first of its comparisons that fails, whatever group that stands in. -/
theorem chain_eq_error_iff {cs : List Condition} {e : CompileError} :
    chain ctx cs = .error e ↔ FirstFails (comparison ctx) (comparisonsOf cs) e := by
  cases cs with
  | nil => simp [chain, comparisonsOf, not_firstFails_nil]
  | cons c cs =>
    have hc : (∃ ps, condition ctx c = .ok ps) ↔
        ∀ x ∈ c.comparisons, ∃ ps, comparison ctx x = .ok ps :=
      exists_ok_iff_of_error_iff fun _ => condition_eq_error_iff
    rw [chain, comparisonsOf, firstFails_append_iff, ← condition_eq_error_iff,
      ← chain_eq_error_iff, ← hc, bind_eq_error_iff]
    simp [bind_eq_error_iff]

end

theorem filter_eq_error_iff {cs : List Condition} {e : CompileError} :
    Compiler.filter ctx cs = .error e ↔ FirstFails (comparison ctx) (comparisonsOf cs) e := by
  rw [← chain_eq_error_iff]
  cases cs with
  | nil => simp [Compiler.filter, chain]
  | cons c cs =>
    rw [Compiler.filter, map_eq_error_iff]
    simp

theorem exists_filter_iff {cs : List Condition} : (∃ pieces, Compiler.filter ctx cs = .ok pieces) ↔
    ∀ c ∈ comparisonsOf cs, ∃ ps, comparison ctx c = .ok ps :=
  exists_ok_iff_of_error_iff fun _ => filter_eq_error_iff

theorem order_eq_error_iff {items : List OrderItem} {e : CompileError} :
    order ctx items = .error e ↔
      FirstFails (fun item : OrderItem => renderField ctx item.field) items e := by
  induction items with
  | nil => simp [order, not_firstFails_nil]
  | cons item items ih =>
    rw [order, firstFails_cons_iff, ← ih, bind_eq_error_iff]
    simp [bind_eq_error_iff]

end Compiler

/-! ## Queries -/

namespace Query

variable {q : Query} {backend : Backend} {mode : Mode} {now : Time.Timestamp}

/-- The query with one comparison as its only condition, without an ordering and without a page. -/
def alone (q : Query) (c : Comparison) : Query :=
  { q with conditions := [.compare .first c], orderBy := [], page := none }

/-- The error `e` is that of the first check that fails, one case for each kind of check. Every case
says that the checks before it pass. -/
inductive Fault (q : Query) (backend : Backend) (mode : Mode) (now : Time.Timestamp) :
    CompileError → Prop where
  /-- The entity is not stored in the backend. -/
  | entity (h : backend.dialect.source q.entity = none) :
      Fault q backend mode now (.unsupportedEntity q.entity backend)
  /-- The page of the records cannot be found. -/
  | page (hentity : backend.dialect.source q.entity ≠ none) (hkind : q.kind = .records)
      {fault : CursorFault} (h : Paging.offsetOf q.page q.limit = .error fault) :
      Fault q backend mode now (.invalidCursor fault)
  /-- A comparison fails, as it does alone. -/
  | comparison (hentity : backend.dialect.source q.entity ≠ none)
      (hpage : q.kind = .records → ∃ offset, Paging.offsetOf q.page q.limit = .ok offset)
      {e : CompileError}
      (h : FirstFails (fun c => (q.alone c).compile backend mode now)
        (comparisonsOf q.conditions) e) :
      Fault q backend mode now e
  /-- A key of the ordering of the records cannot be written. -/
  | order (hentity : backend.dialect.source q.entity ≠ none) (hkind : q.kind = .records)
      (hpage : ∃ offset, Paging.offsetOf q.page q.limit = .ok offset)
      (hconditions : ∀ c ∈ comparisonsOf q.conditions,
        ∃ a, (q.alone c).compile backend mode now = .ok a)
      {e : CompileError}
      (h : FirstFails (fun item : OrderItem =>
        Compiler.renderField (q.context backend now) item.field) q.orderBy e) :
      Fault q backend mode now e

theorem pieces_eq_error_iff {source : String}
    (hsource : backend.dialect.source q.entity = some source) {e : CompileError} :
    q.pieces backend now = .error e ↔
      (∃ fault, Paging.offsetOf q.appliedPage q.appliedLimit = .error fault ∧
        .invalidCursor fault = e) ∨
      (∃ offset, Paging.offsetOf q.appliedPage q.appliedLimit = .ok offset) ∧
        (Compiler.filter (q.context backend now) q.conditions = .error e ∨
          (∃ filter, Compiler.filter (q.context backend now) q.conditions = .ok filter) ∧
            Compiler.order (q.context backend now) q.appliedOrder = .error e) := by
  unfold pieces clauses
  rw [hsource]
  simp only [bind_eq_error_iff, mapError_eq_error_iff, mapError_eq_ok_iff]
  simp [context]

theorem compile_alone_eq_error_iff {source : String}
    (hsource : backend.dialect.source q.entity = some source) {c : Comparison} {e : CompileError} :
    (q.alone c).compile backend mode now = .error e ↔
      Compiler.comparison (q.context backend now) c = .error e := by
  have hpage : (q.alone c).appliedPage = none := by
    cases hkind : q.kind <;> simp [appliedPage, alone, hkind]
  have horder : (q.alone c).appliedOrder = [] := by
    cases hkind : q.kind <;> simp [appliedOrder, alone, hkind]
  have hsource' : backend.dialect.source (q.alone c).entity = some source := hsource
  rw [compile_eq_error_iff, pieces_eq_error_iff hsource', hpage, horder,
    Compiler.filter_eq_error_iff, alone]
  simp [Paging.offsetOf, Compiler.order, comparisonsOf, Condition.comparisons, firstFails_cons_iff,
    not_firstFails_nil, context]

theorem compile_of_source_eq_none (hsource : backend.dialect.source q.entity = none) :
    q.compile backend mode now = .error (.unsupportedEntity q.entity backend) := by
  have hbackend : backend.dialect.backend = backend := by cases backend <;> rfl
  rw [compile_eq_error_iff, pieces, clauses, hsource, hbackend]
  rfl

/-- Of the checks after the one of the entity, those of the page and of the ordering are made for
records only. -/
theorem compile_eq_error_iff_of_source {source : String}
    (hsource : backend.dialect.source q.entity = some source) {e : CompileError} :
    q.compile backend mode now = .error e ↔
      (q.kind = .records ∧
        ∃ fault, Paging.offsetOf q.page q.limit = .error fault ∧ .invalidCursor fault = e) ∨
      (q.kind = .records → ∃ offset, Paging.offsetOf q.page q.limit = .ok offset) ∧
        (FirstFails (fun c => (q.alone c).compile backend mode now)
            (comparisonsOf q.conditions) e ∨
          (∀ c ∈ comparisonsOf q.conditions, ∃ a, (q.alone c).compile backend mode now = .ok a) ∧
            q.kind = .records ∧ FirstFails (fun item : OrderItem =>
              Compiler.renderField (q.context backend now) item.field) q.orderBy e) := by
  have hfilter : ∀ e, Compiler.filter (q.context backend now) q.conditions = .error e ↔
      FirstFails (fun c => (q.alone c).compile backend mode now)
        (comparisonsOf q.conditions) e := by
    intro e
    rw [Compiler.filter_eq_error_iff]
    exact firstFails_congr fun c _ e => (compile_alone_eq_error_iff hsource).symm
  rw [compile_eq_error_iff, pieces_eq_error_iff hsource, hfilter,
    exists_ok_iff_of_error_iff hfilter, Compiler.order_eq_error_iff]
  cases hkind : q.kind with
  | records => simp [appliedPage, appliedLimit, appliedOrder, hkind]
  | count =>
    simp [appliedPage, appliedLimit, appliedOrder, hkind, Paging.offsetOf, not_firstFails_nil]

/-- A query fails with the error of the first check that fails, and a comparison fails as it does
alone. A count never fails for its ordering, its limit or its page. -/
theorem compile_error_iff_fault (q : Query) (backend : Backend) (mode : Mode)
    (now : Time.Timestamp) :
    (∀ e, q.compile backend mode now = .error e ↔ q.Fault backend mode now e) ∧
    ∀ orderBy limit page e,
      Query.compile { q with kind := .count, orderBy := orderBy, limit := limit, page := page }
          backend mode now = .error e ↔
        Query.compile { q with kind := .count, orderBy := [], limit := none, page := none }
          backend mode now = .error e := by
  refine ⟨fun e => ?_, fun orderBy limit page e => ?_⟩
  · cases hsource : backend.dialect.source q.entity with
    | none =>
      rw [compile_of_source_eq_none hsource]
      constructor
      · rintro ⟨⟩
        exact .entity hsource
      · intro h
        cases h with
        | entity => rfl
        | page hentity => exact absurd hsource hentity
        | comparison hentity => exact absurd hsource hentity
        | order hentity => exact absurd hsource hentity
    | some source =>
      have hstored : backend.dialect.source q.entity ≠ none := by simp [hsource]
      rw [compile_eq_error_iff_of_source hsource]
      constructor
      · rintro (⟨hkind, fault, hfault, rfl⟩ | ⟨hpage, hfails | ⟨hpass, hkind, hfails⟩⟩)
        · exact .page hstored hkind hfault
        · exact .comparison hstored hpage hfails
        · exact .order hstored hkind (hpage hkind) hpass hfails
      · intro h
        cases h with
        | entity hnone => exact absurd hnone hstored
        | page _ hkind hfault => exact Or.inl ⟨hkind, _, hfault, rfl⟩
        | comparison _ hpage hfails => exact Or.inr ⟨hpage, Or.inl hfails⟩
        | order _ hkind hpage hpass hfails =>
          exact Or.inr ⟨fun _ => hpage, Or.inr ⟨hpass, hkind, hfails⟩⟩
  · rw [compile_eq_error_iff, compile_eq_error_iff]
    rfl

end Query

end NetQuery
