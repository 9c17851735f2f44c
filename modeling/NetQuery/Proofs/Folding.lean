import NetQuery.Proofs.Expressions
import NetQuery.Proofs.Recasing
import NetQuery.Proofs.Rules

/-!
# The case of letters in the tokens of a query

The parser looks at the case of a name nowhere: it looks up an entity in small letters, writes a
function in small letters, and passes every other name on. So it does the same with the tokens of a
text and with these tokens in small letters, down to the fault that it shows, and only the case of
the fields in the query differs. Each rule of the parser has one lemma that says so, and a rule that
is made of others takes it from them step by step.
-/

namespace NetQuery

/-! ## Queries in small letters -/

/-- A comparison with its field in small letters. -/
def Comparison.lowered (c : Comparison) : Comparison := ⟨Text.lower c.field, c.operator, c.value⟩

mutual

/-- A condition with its fields in small letters. -/
def Condition.lowered : Condition → Condition
  | .compare link c => .compare link c.lowered
  | .group link members => .group link (loweredOf members)

/-- A chain of conditions with their fields in small letters. -/
def loweredOf : List Condition → List Condition
  | [] => []
  | c :: cs => c.lowered :: loweredOf cs

end

/-- A key of an ordering with its field in small letters. -/
def OrderItem.lowered (item : OrderItem) : OrderItem := ⟨Text.lower item.field, item.direction⟩

/-- A query with its fields in small letters. -/
def Query.lowered (q : Query) : Query :=
  { q with conditions := loweredOf q.conditions, orderBy := q.orderBy.map OrderItem.lowered }

/-- A fault with the names that it shows in small letters. -/
def GrammarFault.lowered : GrammarFault → GrammarFault
  | .expected what left => .expected what (left.map Token.lowered)
  | .unknownEntity name position => .unknownEntity (Text.lower name) position
  | fault => fault

namespace Parser

/-! ## Rules -/

variable {α β : Type}

/-- An outcome in small letters: the names in a fault, and what `f` makes small. -/
def lowerWith (f : α → α) : Except GrammarFault α → Except GrammarFault α
  | .error fault => .error fault.lowered
  | .ok a => .ok (f a)

/-- A step does not look at the case of letters: on tokens in small letters it comes to the same, in
small letters. -/
def Folds (f : α → α) (step : List Token → Except GrammarFault (α × List Token)) : Prop :=
  ∀ ts, step (ts.map Token.lowered) = lowerWith (Prod.map f (List.map Token.lowered)) (step ts)

/-- Steps in a row come to the same if each of them does. -/
theorem lowerWith_bind {f : α → α} {g : β → β} {x : Except GrammarFault (α × List Token)}
    {k k' : α × List Token → Except GrammarFault β}
    (h : ∀ a rest, x = .ok (a, rest) →
      k' (f a, rest.map Token.lowered) = lowerWith g (k (a, rest))) :
    lowerWith (Prod.map f (List.map Token.lowered)) x >>= k' = lowerWith g (x >>= k) := by
  cases x with
  | error fault => rfl
  | ok r => exact h r.1 r.2 rfl

theorem literal?_lowered (kind : TokenKind) : literal? kind.lowered = literal? kind := by
  cases kind <;> rfl

theorem value_folds : Folds id (run value) := by
  intro ts
  rcases ts with _ | ⟨t, ts⟩
  · rfl
  · rw [List.map_cons, run_value_cons, run_value_cons, Token.lowered, literal?_lowered]
    cases literal? t.kind <;> rfl

theorem keyword_folds (k : Keyword) : Folds id (run (keyword k)) := by
  intro ts
  rcases ts with _ | ⟨⟨kind, p⟩, ts⟩
  · rfl
  · cases kind with
    | keyword k' =>
      change run (keyword k) (⟨.keyword k', p⟩ :: ts.map Token.lowered) = _
      rw [run_keyword_cons, run_keyword_cons]
      split <;> rfl
    | _ => rfl

theorem listTail_folds : Folds id (run listTail) := by
  intro ts
  rw [run_listTail, run_listTail, value_folds ts]
  refine lowerWith_bind fun v rest hrest => ?_
  rcases rest with _ | ⟨⟨kind, p⟩, rest⟩
  · rfl
  · cases kind with
    | comma =>
      change run listTail (rest.map Token.lowered) >>= _ = _
      have hlt := length_lt_of_run hrest
      rw [listTail_folds rest]
      exact lowerWith_bind fun _ _ _ => rfl
    | _ => rfl
termination_by ts => ts.length
decreasing_by
  simp only [List.length_cons] at hlt
  omega

theorem valueList_folds : Folds id (run valueList) := by
  intro ts
  rcases ts with _ | ⟨⟨kind, p⟩, ts⟩
  · rfl
  · cases kind with
    | openParen =>
      change run valueList (⟨.openParen, p⟩ :: ts.map Token.lowered) = _
      rw [run_valueList, run_valueList, listTail_folds ts]
      refine lowerWith_bind fun vs rest _ => ?_
      simp only [id_eq]
      split <;> rfl
    | _ => rfl

theorem range_folds : Folds id (run range) := by
  intro ts
  rw [run_range, run_range, value_folds ts]
  refine lowerWith_bind fun low rest _ => ?_
  simp only [keyword_folds .and rest]
  refine lowerWith_bind fun _ rest _ => ?_
  simp only [value_folds rest]
  exact lowerWith_bind fun high rest _ => rfl

theorem argumentTail_folds : Folds (List.map Text.lower) (run argumentTail) := by
  intro ts
  rcases ts with _ | ⟨⟨kind, p⟩, ts⟩
  · rfl
  · cases kind with
    | name arg =>
      change run argumentTail (⟨.name (Text.lower arg), p⟩ :: ts.map Token.lowered) = _
      rw [run_argumentTail_name, run_argumentTail_name]
      rcases ts with _ | ⟨⟨kind, q⟩, ts⟩
      · rfl
      · cases kind with
        | comma =>
          change run argumentTail (ts.map Token.lowered) >>= _ = _
          rw [argumentTail_folds ts]
          exact lowerWith_bind fun args rest _ => rfl
        | _ => rfl
    | _ => rfl
termination_by ts => ts.length

theorem lower_call (name : String) (args : List String) :
    Text.lower (FieldRef.call name args) =
      FieldRef.call (Text.lower name) (args.map Text.lower) := by
  have hopen : Text.lower "(" = "(" := rfl
  have hcomma : Text.lower ", " = ", " := rfl
  have hclose : Text.lower ")" = ")" := rfl
  simp only [FieldRef.call, lower_append, lower_join, hopen, hcomma, hclose]

theorem field_folds : Folds Text.lower (run field) := by
  intro ts
  rcases ts with _ | ⟨⟨kind, p⟩, ts⟩
  · rfl
  · cases kind with
    | name name =>
      rcases ts with _ | ⟨⟨kind, q⟩, ts⟩
      · rfl
      · cases kind with
        | openParen =>
          change run field (⟨.name (Text.lower name), p⟩ :: ⟨.openParen, q⟩ ::
            ts.map Token.lowered) = _
          rw [run_field_call, run_field_call, argumentTail_folds ts]
          refine lowerWith_bind fun args rest _ => ?_
          rw [← lower_call]
          rfl
        | _ => rfl
    | _ => rfl

/-- A token that is no name is the same in small letters. -/
theorem eq_cons_of_lowered {ts us : List Token} {kind : TokenKind} {p : Position}
    (hkind : ∀ w, kind ≠ .name w) (h : ts.map Token.lowered = ⟨kind, p⟩ :: us) :
    ∃ vs, ts = ⟨kind, p⟩ :: vs := by
  obtain ⟨⟨kind', p'⟩, vs, rfl, ht, -⟩ := List.map_eq_cons_iff.1 h
  refine ⟨vs, ?_⟩
  rw [Token.lowered, Token.mk.injEq] at ht
  obtain ⟨hlowered, rfl⟩ := ht
  cases kind' with
  | name w => exact absurd hlowered.symm (hkind _)
  | _ => rw [← hlowered]; rfl

theorem nullCheck_folds : Folds id (run nullCheck) := by
  intro ts
  by_cases hnot : ∃ p us, ts = ⟨.keyword .not, p⟩ :: us
  · obtain ⟨p, us, rfl⟩ := hnot
    change run nullCheck (⟨.keyword .not, p⟩ :: us.map Token.lowered) = _
    rw [run_nullCheck_not, run_nullCheck_not, keyword_folds .null us]
    exact lowerWith_bind fun _ _ _ => rfl
  · rw [run_nullCheck, run_nullCheck, keyword_folds .null ts]
    · exact lowerWith_bind fun _ _ _ => rfl
    · exact fun p us h => hnot ⟨p, us, h⟩
    · intro p us h
      obtain ⟨vs, hts⟩ := eq_cons_of_lowered (by simp) h
      exact hnot ⟨p, vs, hts⟩

theorem operation_folds : Folds id (run operation) := by
  intro ts
  rcases ts with _ | ⟨⟨kind, p⟩, ts⟩
  · rfl
  · cases kind with
    | compare c =>
      change run operation (⟨.compare c, p⟩ :: ts.map Token.lowered) = _
      rw [run_operation_compare, run_operation_compare, value_folds ts]
      exact lowerWith_bind fun _ _ _ => rfl
    | keyword k =>
      change run operation (⟨.keyword k, p⟩ :: ts.map Token.lowered) = _
      cases k with
      | like =>
        rw [run_operation_like, run_operation_like, value_folds ts]
        exact lowerWith_bind fun _ _ _ => rfl
      | «in» =>
        rw [run_operation_in, run_operation_in, valueList_folds ts]
        exact lowerWith_bind fun _ _ _ => rfl
      | between =>
        rw [run_operation_between, run_operation_between, range_folds ts]
        exact lowerWith_bind fun _ _ _ => rfl
      | is =>
        rw [run_operation_is, run_operation_is, nullCheck_folds ts]
        exact lowerWith_bind fun _ _ _ => rfl
      | contains =>
        rcases ts with _ | ⟨⟨kind, q⟩, ts⟩
        · rfl
        · cases kind <;> rfl
      | _ => rfl
    | _ => rfl

theorem comparison_folds : Folds Comparison.lowered (run comparison) := by
  intro ts
  rw [run_comparison, run_comparison, field_folds ts]
  refine lowerWith_bind fun f rest _ => ?_
  simp only [operation_folds rest]
  exact lowerWith_bind fun _ _ _ => rfl

theorem link?_lowered (kind : TokenKind) : link? kind.lowered = link? kind := by
  cases kind <;> rfl

theorem chain_folds {condition : Link → Rule Condition}
    (hcondition : ∀ link, Folds Condition.lowered (run (condition link))) (link : Link) :
    Folds loweredOf (run (chain condition link)) := by
  intro ts
  rw [run_chain, run_chain, hcondition link ts]
  refine lowerWith_bind fun c rest hrest => ?_
  rcases rest with _ | ⟨t, rest⟩
  · rfl
  · have hlink : link? t.lowered.kind = link? t.kind := link?_lowered t.kind
    have hlt := length_lt_of_run hrest
    simp only [chainNext, List.map_cons, List.head?_cons, Option.bind_some, List.tail_cons, hlink]
    cases link? t.kind with
    | none => rfl
    | some next =>
      simp only [Option.elim_some, chain_folds hcondition next rest]
      exact lowerWith_bind fun _ _ _ => rfl
termination_by ts => ts.length
decreasing_by
  simp only [List.length_cons] at hlt
  omega

theorem groupEnd_folds : Folds id (run groupEnd) := by
  intro ts
  rcases ts with _ | ⟨⟨kind, p⟩, ts⟩
  · rfl
  · cases kind <;> rfl

theorem comparisonCondition_folds (link : Link) :
    Folds Condition.lowered (run (comparisonCondition link)) := by
  intro ts
  rw [run_comparisonCondition, run_comparisonCondition, comparison_folds ts]
  exact lowerWith_bind fun _ _ _ => rfl

theorem condition_folds_compare (room : Nat) (link : Link) {ts : List Token}
    (h : ¬∃ p us, ts = ⟨.openParen, p⟩ :: us) :
    run (condition room link) (ts.map Token.lowered) =
      lowerWith (Prod.map Condition.lowered (List.map Token.lowered))
        (run (condition room link) ts) := by
  rw [run_condition_compare room link fun p us hts => h ⟨p, us, hts⟩,
    run_condition_compare room link, comparisonCondition_folds link ts]
  intro p us hts
  obtain ⟨vs, hopen⟩ := eq_cons_of_lowered (by simp) hts
  exact h ⟨p, vs, hopen⟩

theorem condition_folds (room : Nat) (link : Link) :
    Folds Condition.lowered (run (condition room link)) := by
  -- A group takes up room for one, so the induction is on the room that is left.
  induction room generalizing link with
  | zero =>
    intro ts
    by_cases hopen : ∃ p us, ts = ⟨.openParen, p⟩ :: us
    · obtain ⟨p, us, rfl⟩ := hopen
      rfl
    · exact condition_folds_compare 0 link hopen
  | succ room ih =>
    intro ts
    by_cases hopen : ∃ p us, ts = ⟨.openParen, p⟩ :: us
    · obtain ⟨p, us, rfl⟩ := hopen
      change run (condition (room + 1) link) (⟨.openParen, p⟩ :: us.map Token.lowered) = _
      rw [run_condition_group, run_condition_group, chain_folds ih .first us]
      refine lowerWith_bind fun members rest _ => ?_
      simp only [groupEnd_folds rest]
      exact lowerWith_bind fun _ _ _ => rfl
    · exact condition_folds_compare (room + 1) link hopen

theorem direction_lowered (ts : List Token) : direction (ts.map Token.lowered) =
    ((direction ts).1, (direction ts).2.map Token.lowered) := by
  rcases ts with _ | ⟨⟨kind, p⟩, ts⟩
  · rfl
  · cases kind with
    | keyword k => cases k <;> rfl
    | _ => rfl

theorem orderItems_folds : Folds (List.map OrderItem.lowered) (run orderItems) := by
  intro ts
  rw [run_orderItems, run_orderItems, field_folds ts]
  refine lowerWith_bind fun f rest hrest => ?_
  have hlt := length_lt_of_run hrest
  have hle := length_direction_le rest
  simp only [direction_lowered]
  generalize direction rest = d at hle
  obtain ⟨direction, rest'⟩ := d
  rcases rest' with _ | ⟨⟨kind, p⟩, rest'⟩
  · rfl
  · cases kind with
    | comma =>
      change run orderItems (rest'.map Token.lowered) >>= _ = _
      rw [orderItems_folds rest']
      exact lowerWith_bind fun _ _ _ => rfl
    | _ => rfl
termination_by ts => ts.length
decreasing_by
  simp only [List.length_cons] at hle
  omega

/-! ## Clauses -/

theorem whereClause_folds : Folds loweredOf whereClause := by
  intro ts
  rcases ts with _ | ⟨⟨kind, p⟩, ts⟩
  · rfl
  · cases kind with
    | keyword k =>
      cases k with
      | «where» =>
        change whereClause (⟨.keyword .where, p⟩ :: ts.map Token.lowered) = _
        rw [whereClause_where, whereClause_where]
        exact chain_folds (condition_folds maxGroupDepth) .first ts
      | _ => rfl
    | _ => rfl

theorem orderClause_folds : Folds (List.map OrderItem.lowered) orderClause := by
  intro ts
  rcases ts with _ | ⟨⟨kind, p⟩, ts⟩
  · rfl
  · cases kind with
    | keyword k =>
      cases k with
      | order =>
        change orderClause (⟨.keyword .order, p⟩ :: ts.map Token.lowered) = _
        rw [orderClause_order, orderClause_order, keyword_folds .by ts]
        exact lowerWith_bind fun _ rest _ => orderItems_folds rest
      | _ => rfl
    | _ => rfl

theorem limit_folds : Folds id (run limit) := by
  intro ts
  rcases ts with _ | ⟨⟨kind, p⟩, ts⟩
  · rfl
  · cases kind with
    | int n =>
      change run limit (⟨.int n, p⟩ :: ts.map Token.lowered) = _
      simp only [run, limit]
      split <;> rfl
    | _ => rfl

theorem limitClause_folds : Folds id limitClause := by
  intro ts
  rcases ts with _ | ⟨⟨kind, p⟩, ts⟩
  · rfl
  · cases kind with
    | keyword k =>
      cases k with
      | limit =>
        change limitClause (⟨.keyword .limit, p⟩ :: ts.map Token.lowered) = _
        rw [limitClause_limit, limitClause_limit, limit_folds ts]
        exact lowerWith_bind fun _ _ _ => rfl
      | _ => rfl
    | _ => rfl

theorem latestClause_lowered (ts : List Token) : latestClause (ts.map Token.lowered) =
    ((latestClause ts).1, (latestClause ts).2.map Token.lowered) := by
  rcases ts with _ | ⟨⟨kind, p⟩, ts⟩
  · rfl
  · cases kind with
    | keyword k => cases k <;> rfl
    | _ => rfl

theorem verb_folds : Folds id (run verb) := by
  intro ts
  rcases ts with _ | ⟨⟨kind, p⟩, ts⟩
  · rfl
  · cases kind with
    | keyword k => cases k <;> rfl
    | _ => rfl

theorem ofName?_lower (name : String) : Entity.ofName? (Text.lower name) = Entity.ofName? name := by
  rw [Entity.ofName?, Entity.ofName?, Lexer.lower_lower]

theorem entity_folds : Folds id (run entity) := by
  intro ts
  rcases ts with _ | ⟨⟨kind, p⟩, ts⟩
  · rfl
  · cases kind with
    | name name =>
      change run entity (⟨.name (Text.lower name), p⟩ :: ts.map Token.lowered) = _
      simp only [run, entity, ofName?_lower]
      cases Entity.ofName? name <;> rfl
    | _ => rfl

theorem isEmpty_lowered (ts : List Token) : (ts.map Token.lowered).isEmpty = ts.isEmpty := by
  cases ts <;> rfl

/-- The clauses after the entity come to the same, in small letters. -/
theorem clauses_folds (kind : QueryKind) (e : Entity) (ts : List Token) :
    clauses kind e (ts.map Token.lowered) = lowerWith Query.lowered (clauses kind e ts) := by
  unfold clauses
  rw [whereClause_folds ts]
  refine lowerWith_bind fun conditions rest _ => ?_
  cases kind with
  | count =>
    simp only [isEmpty_lowered]
    split <;> rfl
  | records =>
    simp only [orderClause_folds rest]
    refine lowerWith_bind fun orderBy rest _ => ?_
    simp only [limitClause_folds rest]
    refine lowerWith_bind fun limit rest _ => ?_
    simp only [latestClause_lowered, isEmpty_lowered]
    split <;> rfl

/-- A query is read from tokens in small letters as it is read from the tokens, in small letters. -/
theorem query_folds (ts : List Token) :
    query (ts.map Token.lowered) = lowerWith Query.lowered (query ts) := by
  rw [query_eq, query_eq, verb_folds ts]
  refine lowerWith_bind fun kind rest _ => ?_
  simp only [entity_folds rest]
  exact lowerWith_bind fun e rest _ => clauses_folds kind e rest

end Parser

end NetQuery
