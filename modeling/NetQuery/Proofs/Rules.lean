import NetQuery.Proofs.Compiling
import NetQuery.Proofs.Parsing

/-!
# The rules of the parser as steps

A rule of the parser carries the proof that it takes a token, and so its type names the tokens that
it starts from. `run` leaves that proof out. What is left is a plain step from tokens to tokens, and
a rule that is made of others is then written as their steps in a row.
-/

namespace NetQuery.Parser

/-- What a rule reads, and what it leaves. -/
def run {α : Type} (rule : Rule α) (ts : List Token) : Except GrammarFault (α × List Token) :=
  (rule ts).map fun r => (r.value, r.rest)

variable {α : Type} {ts : List Token} {p : Position}

/-- A rule that reads something takes a token. -/
theorem length_lt_of_run {rule : Rule α} {a : α} {rest : List Token}
    (h : run rule ts = .ok (a, rest)) : rest.length < ts.length := by
  obtain ⟨r, -, hr⟩ := map_eq_ok_iff.1 h
  cases hr
  exact r.shorter

/-! ## Values -/

theorem run_value_cons (t : Token) : run value (t :: ts) =
    (literal? t.kind).elim (.error (.expected .literal (t :: ts))) fun v => .ok (v, ts) := by
  rw [run, value]
  cases literal? t.kind <;> rfl

theorem run_keyword_cons (k k' : Keyword) : run (keyword k) (⟨.keyword k', p⟩ :: ts) =
    if k' = k then .ok ((), ts)
    else .error (.expected (.keyword k) (⟨.keyword k', p⟩ :: ts)) := by
  rw [run, keyword]
  split <;> rfl

/-- After a value of a list comes a comma and the rest of the list, or its end. -/
def listNext (v : Value) : List Token → Except GrammarFault (List Value × List Token)
  | ⟨.comma, _⟩ :: ts => run listTail ts >>= fun r => .ok (v :: r.1, r.2)
  | ⟨.closeParen, _⟩ :: ts => .ok ([v], ts)
  | ts => .error (.expected .commaOrClose ts)

theorem run_listTail (ts : List Token) :
    run listTail ts = run value ts >>= fun v => listNext v.1 v.2 := by
  rcases ts with _ | ⟨t, ts⟩
  · rfl
  · rw [run_value_cons, run, listTail]
    cases literal? t.kind with
    | none => rfl
    | some v =>
      rcases ts with _ | ⟨⟨kind, p⟩, ts⟩
      · rfl
      · cases kind with
        | comma =>
          simp only [Option.elim, bind, Except.bind, listNext, run]
          cases listTail ts <;> rfl
        | _ => rfl

theorem run_valueList : run valueList (⟨.openParen, p⟩ :: ts) = run listTail ts >>= fun r =>
    if maxListValues < r.1.length then .error (.listLength p) else .ok r := by
  simp only [run, valueList]
  cases listTail ts with
  | error fault => rfl
  | ok r =>
    simp only [bind, Except.bind, Except.map]
    by_cases hlength : maxListValues < r.value.length
    · simp only [if_pos hlength]
    · simp only [if_neg hlength]

theorem run_range (ts : List Token) : run range ts = run value ts >>= fun low =>
    run (keyword .and) low.2 >>= fun link => run value link.2 >>= fun high =>
      .ok (.list [low.1, high.1], high.2) := by
  simp only [run, range]
  cases value ts with
  | error fault => rfl
  | ok low =>
    simp only [bind, Except.bind, Except.map]
    cases keyword .and low.rest with
    | error fault => rfl
    | ok link =>
      simp only
      cases value link.rest <;> rfl

/-! ## Fields -/

/-- After an argument of a call comes a comma and the other arguments, or the end of the call. -/
def argumentNext (arg : String) : List Token → Except GrammarFault (List String × List Token)
  | ⟨.comma, _⟩ :: ts => run argumentTail ts >>= fun r => .ok (arg :: r.1, r.2)
  | ⟨.closeParen, _⟩ :: ts => .ok ([arg], ts)
  | ts => .error (.expected .commaOrClose ts)

theorem run_argumentTail_name (arg : String) :
    run argumentTail (⟨.name arg, p⟩ :: ts) = argumentNext arg ts := by
  rcases ts with _ | ⟨⟨kind, q⟩, ts⟩
  · rfl
  · cases kind with
    | comma =>
      simp only [run, argumentTail, argumentNext]
      cases argumentTail ts <;> rfl
    | _ => rfl

theorem run_field_call (name : String) {q : Position} :
    run field (⟨.name name, p⟩ :: ⟨.openParen, q⟩ :: ts) =
      run argumentTail ts >>= fun r => .ok (FieldRef.call name r.1, r.2) := by
  simp only [run, field]
  cases argumentTail ts <;> rfl

/-- After a name comes the parenthesis that makes it a call, or the field ends. -/
def fieldNext (name : String) : List Token → Except GrammarFault (String × List Token)
  | ⟨.openParen, _⟩ :: ts => run argumentTail ts >>= fun r => .ok (FieldRef.call name r.1, r.2)
  | ts => .ok (name, ts)

theorem run_field_name (name : String) : run field (⟨.name name, p⟩ :: ts) = fieldNext name ts := by
  rcases ts with _ | ⟨⟨kind, q⟩, ts⟩
  · rfl
  · cases kind with
    | openParen => exact run_field_call name
    | _ => rfl

/-! ## Comparisons -/

theorem run_nullCheck_not : run nullCheck (⟨.keyword .not, p⟩ :: ts) =
    run (keyword .null) ts >>= fun r => .ok (.isNotNull, r.2) := by
  simp only [run, nullCheck]
  cases keyword .null ts <;> rfl

theorem run_nullCheck (h : ∀ p us, ts ≠ ⟨.keyword .not, p⟩ :: us) :
    run nullCheck ts = run (keyword .null) ts >>= fun r => .ok (.isNull, r.2) := by
  rw [run, run, nullCheck]
  · cases keyword .null ts <;> rfl
  · exact h

theorem run_operation_compare (c : Comparator) : run operation (⟨.compare c, p⟩ :: ts) =
    run value ts >>= fun r => .ok ((.compare c, r.1), r.2) := by
  simp only [run, operation]
  cases value ts <;> rfl

theorem run_operation_like : run operation (⟨.keyword .like, p⟩ :: ts) =
    run value ts >>= fun r => .ok ((.like, r.1), r.2) := by
  simp only [run, operation]
  cases value ts <;> rfl

theorem run_operation_in : run operation (⟨.keyword .in, p⟩ :: ts) =
    run valueList ts >>= fun r => .ok ((.isIn, .list r.1), r.2) := by
  simp only [run, operation]
  cases valueList ts <;> rfl

theorem run_operation_between : run operation (⟨.keyword .between, p⟩ :: ts) =
    run range ts >>= fun r => .ok ((.between, r.1), r.2) := by
  simp only [run, operation]
  cases range ts <;> rfl

theorem run_operation_is : run operation (⟨.keyword .is, p⟩ :: ts) =
    run nullCheck ts >>= fun r => .ok ((r.1, .null), r.2) := by
  simp only [run, operation]
  cases nullCheck ts <;> rfl

/-- After `CONTAINS` comes a text. -/
def containsNext : List Token → Except GrammarFault ((Operator × Value) × List Token)
  | ⟨.text v, _⟩ :: ts => .ok ((.contains, .text v), ts)
  | ts => .error (.expected .textAfterContains ts)

theorem run_operation_contains :
    run operation (⟨.keyword .contains, p⟩ :: ts) = containsNext ts := by
  rcases ts with _ | ⟨⟨kind, q⟩, ts⟩
  · rfl
  · cases kind <;> rfl

theorem run_comparison (ts : List Token) : run comparison ts = run field ts >>= fun f =>
    run operation f.2 >>= fun r => .ok (⟨f.1, r.1.1, r.1.2⟩, r.2) := by
  simp only [run, comparison]
  cases field ts with
  | error fault => rfl
  | ok f =>
    simp only [bind, Except.bind, Except.map]
    cases operation f.rest <;> rfl

/-! ## Conditions -/

/-- After a condition comes a link and the rest of the chain, or the chain ends. -/
def chainNext (condition : Link → Rule Condition) (c : Condition) (ts : List Token) :
    Except GrammarFault (List Condition × List Token) :=
  (ts.head?.bind fun t => link? t.kind).elim (.ok ([c], ts)) fun link =>
    run (chain condition link) ts.tail >>= fun r => .ok (c :: r.1, r.2)

theorem run_chain (condition : Link → Rule Condition) (link : Link) (ts : List Token) :
    run (chain condition link) ts =
      run (condition link) ts >>= fun c => chainNext condition c.1 c.2 := by
  rw [run, run, chain]
  cases condition link ts with
  | error fault => rfl
  | ok c =>
    obtain ⟨c, rest, hlt⟩ := c
    simp only [bind, Except.bind, Except.map]
    rcases rest with _ | ⟨t, rest⟩
    · rfl
    · simp only [nextLink, chainNext, List.head?_cons, Option.bind_some, List.tail_cons, run]
      cases link? t.kind with
      | none => rfl
      | some next =>
        simp only [Option.map_some, Option.elim_some]
        cases chain condition next rest <;> rfl

theorem run_comparisonCondition (link : Link) (ts : List Token) :
    run (comparisonCondition link) ts =
      run comparison ts >>= fun r => .ok (.compare link r.1, r.2) := by
  simp only [run, comparisonCondition]
  cases comparison ts <;> rfl

theorem run_condition_group (room : Nat) (link : Link) :
    run (condition (room + 1) link) (⟨.openParen, p⟩ :: ts) =
      run (chain (condition room) .first) ts >>= fun members =>
        run groupEnd members.2 >>= fun close => .ok (.group link members.1, close.2) := by
  simp only [run, condition]
  cases chain (condition room) .first ts with
  | error fault => rfl
  | ok members =>
    simp only [bind, Except.bind, Except.map]
    cases groupEnd members.rest <;> rfl

theorem run_condition_compare (room : Nat) (link : Link)
    (h : ∀ p us, ts ≠ ⟨.openParen, p⟩ :: us) :
    run (condition room link) ts = run (comparisonCondition link) ts := by
  rw [run, run, condition.eq_3 room link ts (fun p us _ => h p us) (fun _ p us _ => h p us)]

/-! ## Orderings -/

/-- After a key comes a comma and the other keys, or the ordering ends. -/
def orderNext (item : OrderItem) : List Token → Except GrammarFault (List OrderItem × List Token)
  | ⟨.comma, _⟩ :: ts => run orderItems ts >>= fun r => .ok (item :: r.1, r.2)
  | ts => .ok ([item], ts)

theorem orderNext_eq (item : OrderItem) (ts : List Token) : orderNext item ts =
    (nextKey ts).elim (.ok ([item], ts)) fun comma =>
      run orderItems comma.rest >>= fun r => .ok (item :: r.1, r.2) := by
  rcases ts with _ | ⟨⟨kind, p⟩, ts⟩
  · rfl
  · cases kind <;> rfl

theorem run_orderItems (ts : List Token) : run orderItems ts = run field ts >>= fun f =>
    orderNext ⟨f.1, (direction f.2).1⟩ (direction f.2).2 := by
  rw [run, run, orderItems]
  cases field ts with
  | error fault => rfl
  | ok f =>
    simp only [bind, Except.bind, Except.map, orderNext_eq, run]
    cases nextKey (direction f.rest).2 with
    | none => rfl
    | some comma =>
      simp only [Option.elim_some]
      cases orderItems comma.rest <;> rfl

/-! ## Clauses -/

theorem whereClause_where : whereClause (⟨.keyword .where, p⟩ :: ts) = run conditions ts := by
  simp only [whereClause, run]
  cases conditions ts <;> rfl

theorem orderClause_order : orderClause (⟨.keyword .order, p⟩ :: ts) =
    run (keyword .by) ts >>= fun r => run orderItems r.2 := by
  simp only [orderClause, run]
  cases keyword .by ts with
  | error fault => rfl
  | ok r =>
    simp only [bind, Except.bind, Except.map]
    cases orderItems r.rest <;> rfl

theorem limitClause_limit : limitClause (⟨.keyword .limit, p⟩ :: ts) =
    run limit ts >>= fun r => .ok (some r.1, r.2) := by
  simp only [limitClause, run]
  cases limit ts <;> rfl

theorem query_eq (ts : List Token) : query ts = run verb ts >>= fun kind =>
    run entity kind.2 >>= fun e => clauses kind.1 e.1 e.2 := by
  rw [query, run]
  cases verb ts with
  | error fault => rfl
  | ok kind =>
    simp only [bind, Except.bind, Except.map, run]
    cases entity kind.rest <;> rfl

end NetQuery.Parser
