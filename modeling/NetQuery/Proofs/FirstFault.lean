import NetQuery.Proofs.Prompt

/-!
# The first token that does not fit

The parser reports a fault at the first token that no query can have there. What has been read up to
that token can go on to a query, and no query goes on with the token itself. Each rule of the parser
is prompt, with its own notion of what may follow it: a field ends before anything but a
parenthesis, a chain before anything but a link. Whole queries are steps in a row up to the end.
-/

namespace NetQuery

namespace Parser

open Grammar

variable {α : Type} {ts : List Token} {what : Expectation}

/-- Tokens of the given kinds. Their places do not matter. -/
def tokens (ks : List TokenKind) : List Token := ks.map fun k => ⟨k, .start⟩

theorem kinds_tokens (ks : List TokenKind) : kinds (tokens ks) = ks := by
  simp [tokens, Function.comp_def]

/-! ## Values -/

theorem value_prompt (ts : List Token) : Prompt anything (run value) ts := by
  have hmore : Completes anything (run value) (tokens [.int 0]) := fun rest _ => ⟨_, rfl⟩
  rcases ts with _ | ⟨⟨kind, p⟩, ts⟩
  · exact .here_nil rfl hmore
  · cases hv : literal? kind with
    | none => exact .here_cons (fun p us => by rw [run_value_cons, hv]; rfl) hmore
    | some v => exact .take fun p us => by rw [run_value_cons, hv]; rfl

theorem keyword_prompt (k : Keyword) (ts : List Token) : Prompt anything (run (keyword k)) ts := by
  have hmore : Completes anything (run (keyword k)) (tokens [.keyword k]) := by
    intro rest _
    exact ⟨(), (run_keyword_cons k k).trans (if_pos rfl)⟩
  rcases ts with _ | ⟨⟨kind, p⟩, ts⟩
  · exact .here_nil rfl hmore
  · cases kind with
    | keyword k' =>
      by_cases hk : k' = k
      · exact .take fun p us => by rw [run_keyword_cons, if_pos hk]
      · exact .here_cons (fun p us => by rw [run_keyword_cons, if_neg hk]) hmore
    | _ => exact .here_cons (fun _ _ => rfl) hmore

theorem range_eq : run range = Step.andThen (run value) fun low =>
    Step.andThen (run (keyword .and)) fun _ => Step.map (run value) fun high => .list [low, high] :=
  funext run_range

theorem range_prompt (ts : List Token) : Prompt anything (run range) ts := by
  rw [range_eq]
  refine (value_prompt ts).andThen (tokens [.keyword .and, .int 0]) (fun _ _ _ => ⟨_, rfl⟩) ?_
  intro low mid _
  refine (keyword_prompt .and mid).andThen (tokens [.int 0]) (fun _ _ _ => ⟨_, rfl⟩) ?_
  exact fun _ mid _ => (value_prompt mid).map _

theorem listTail_prompt (ts : List Token) : Prompt anything (run listTail) ts := by
  rw [show run listTail = Step.andThen (run value) listNext from funext run_listTail]
  refine (value_prompt ts).andThen (tokens [.closeParen]) (fun _ _ _ => ⟨_, rfl⟩) ?_
  intro v mid hmid
  have hclose : Completes anything (listNext v) (tokens [.closeParen]) := fun _ _ => ⟨_, rfl⟩
  rcases mid with _ | ⟨⟨kind, p⟩, mid⟩
  · exact .here_nil rfl hclose
  · cases kind with
    | comma =>
      have hlt := length_lt_of_run hmid
      exact .cons (fun _ _ => rfl) ((listTail_prompt mid).map _)
    | closeParen => exact .take fun _ _ => rfl
    | _ => exact .here_cons (fun _ _ => rfl) hclose
termination_by ts.length
decreasing_by
  simp only [List.length_cons] at hlt
  omega

/-- Where a list asks for something, the tokens that it has read are a list that is not closed. -/
theorem listTail_open (ts : List Token) {left : List Token}
    (h : run listTail ts = .error (.expected what left)) :
    ∃ used n, ts = used ++ left ∧ OpenList (kinds used) n := by
  rw [run_listTail] at h
  rcases bind_eq_error_iff.1 h with hvalue | ⟨⟨v, mid⟩, hv, hnext⟩
  · obtain rfl : ts = left := by
      rcases ts with _ | ⟨t, ts⟩
      · cases hvalue
        rfl
      · rw [run_value_cons] at hvalue
        cases hv : literal? t.kind <;> rw [hv] at hvalue <;> cases hvalue
        rfl
    exact ⟨[], 0, rfl, .empty⟩
  · obtain ⟨t, hts, hliteral⟩ := reads_value_iff.1 (reads_iff.2 hv)
    rcases mid with _ | ⟨⟨kind, p⟩, mid⟩
    · cases hnext
      exact ⟨[t], 1, hts, .last hliteral⟩
    · cases kind with
      | comma =>
        rcases bind_eq_error_iff.1 hnext with htail | ⟨_, -, hcontra⟩
        · obtain ⟨used, n, rfl, hopen⟩ := listTail_open mid htail
          exact ⟨t :: ⟨.comma, p⟩ :: used, n + 1, hts, .more hliteral hopen⟩
        · cases hcontra
      | closeParen => cases hnext
      | _ =>
        cases hnext
        exact ⟨[t], 1, hts, .last hliteral⟩
termination_by ts.length
decreasing_by
  rw [hts, List.length_cons, List.length_cons]
  omega

/-! ## Fields -/

theorem argumentTail_prompt (ts : List Token) : Prompt anything (run argumentTail) ts := by
  have hmore : Completes anything (run argumentTail) (tokens [.name "x", .closeParen]) :=
    fun rest _ => ⟨_, rfl⟩
  rcases ts with _ | ⟨⟨kind, p⟩, ts⟩
  · exact .here_nil rfl hmore
  · cases kind with
    | name arg =>
      refine .cons (fun p us => run_argumentTail_name arg) ?_
      have hclose : Completes anything (argumentNext arg) (tokens [.closeParen]) :=
        fun rest _ => ⟨_, rfl⟩
      rcases ts with _ | ⟨⟨kind, q⟩, ts⟩
      · exact .here_nil rfl hclose
      · cases kind with
        | comma => exact .cons (fun _ _ => rfl) ((argumentTail_prompt ts).map _)
        | closeParen => exact .take fun _ _ => rfl
        | _ => exact .here_cons (fun _ _ => rfl) hclose
    | _ => exact .here_cons (fun _ _ => rfl) hmore
termination_by ts.length

/-- A parenthesis after a name makes it a call. -/
def notOpen : Follow := fun k => k ≠ some .openParen

theorem fieldNext_of_notOpen (name : String) {us : List Token} (h : notOpen (next us)) :
    fieldNext name us = .ok (name, us) := by
  rcases us with _ | ⟨⟨kind, p⟩, us⟩
  · rfl
  · cases kind with
    | openParen => exact absurd rfl h
    | _ => rfl

theorem fieldNext_prompt (name : String) (ts : List Token) :
    Prompt notOpen (fieldNext name) ts := by
  by_cases hopen : next ts = some .openParen
  · obtain ⟨p, us, rfl⟩ := next_eq_some hopen
    have hcall := (argumentTail_prompt us).map (FieldRef.call name)
    exact .cons (fun _ _ => rfl) (hcall.mono fun _ _ => trivial)
  · exact .pass notOpen name hopen (fun _ hk => hk) fun _ => fieldNext_of_notOpen name

theorem field_completes : Completes notOpen (run field) (tokens [.name "x"]) := fun _ hrest =>
  ⟨"x", (run_field_name "x").trans (fieldNext_of_notOpen "x" hrest)⟩

theorem field_prompt (ts : List Token) : Prompt notOpen (run field) ts := by
  have hmore := field_completes
  rcases ts with _ | ⟨⟨kind, p⟩, ts⟩
  · exact .here_nil rfl hmore
  · cases kind with
    | name name => exact .cons (fun _ _ => run_field_name name) (fieldNext_prompt name ts)
    | _ => exact .here_cons (fun _ _ => rfl) hmore

/-! ## Operations -/

theorem nullCheck_prompt (ts : List Token) : Prompt anything (run nullCheck) ts := by
  have hmore : Completes anything (run nullCheck) (tokens [.keyword .null]) :=
    fun rest _ => ⟨_, rfl⟩
  rcases ts with _ | ⟨⟨kind, p⟩, ts⟩
  · exact .here_nil rfl hmore
  · cases kind with
    | keyword k =>
      cases k with
      | not =>
        have hnull := (keyword_prompt .null ts).map fun _ => Operator.isNotNull
        exact .cons (fun _ _ => run_nullCheck_not) hnull
      | null => exact .take fun _ _ => rfl
      | _ => exact .here_cons (fun _ _ => rfl) hmore
    | _ => exact .here_cons (fun _ _ => rfl) hmore

theorem contains_prompt (ts : List Token) : Prompt anything containsNext ts := by
  have hmore : Completes anything containsNext (tokens [.text ""]) := fun rest _ => ⟨_, rfl⟩
  rcases ts with _ | ⟨⟨kind, p⟩, ts⟩
  · exact .here_nil rfl hmore
  · cases kind with
    | text v => exact .take fun _ _ => rfl
    | _ => exact .here_cons (fun _ _ => rfl) hmore

theorem run_valueList_of_notOpen {us : List Token} (h : notOpen (next us)) :
    run valueList us = .error (.expected .listOpen us) := by
  rcases us with _ | ⟨⟨kind, p⟩, us⟩
  · rfl
  · cases kind with
    | openParen => exact absurd rfl h
    | _ => rfl

theorem run_operation_list {p q : Position} {us : List Token} :
    run operation (⟨.keyword .in, p⟩ :: ⟨.openParen, q⟩ :: us) = run listTail us >>= fun r =>
      if maxListValues < r.1.length then .error (.listLength q)
      else .ok ((.isIn, .list r.1), r.2) := by
  rw [run_operation_in, run_valueList]
  cases run listTail us with
  | error fault => rfl
  | ok r =>
    simp only [bind, Except.bind]
    by_cases hlength : maxListValues < r.1.length
    · simp only [if_pos hlength]
    · simp only [if_neg hlength]

/-- A list is prompt unless it has got too long. -/
theorem operation_list_prompt (p q : Position) (us : List Token) :
    Prompt anything (run operation) (⟨.keyword .in, p⟩ :: ⟨.openParen, q⟩ :: us) where
  ok := by
    intro a rest hok
    rw [run_operation_list] at hok
    obtain ⟨⟨vs, mid⟩, hvs, hcheck⟩ := bind_eq_ok_iff.1 hok
    obtain ⟨used, rfl, hused⟩ := (listTail_prompt us).ok vs mid hvs
    simp only at hcheck
    split at hcheck
    · cases hcheck
    · next hlength =>
      cases hcheck
      refine ⟨⟨.keyword .in, p⟩ :: ⟨.openParen, q⟩ :: used, rfl, fun rest' _ => ?_⟩
      refine run_operation_list.trans (bind_eq_ok_iff.2 ⟨_, hused rest' (.inr trivial), ?_⟩)
      exact if_neg hlength
  expected := by
    intro what left herror
    rw [run_operation_list] at herror
    rcases bind_eq_error_iff.1 herror with htail | ⟨r, -, hcheck⟩
    · obtain ⟨used, rfl, hasks⟩ := (listTail_prompt us).expected what left htail
      obtain ⟨used', n, hused', hopen⟩ := listTail_open _ htail
      -- Both say where the list asks for something, so they speak of the same tokens.
      obtain rfl := List.append_cancel_right hused'
      refine ⟨⟨.keyword .in, p⟩ :: ⟨.openParen, q⟩ :: used, rfl, fun left' hleft' => ?_, ?_⟩
      · exact run_operation_list.trans (bind_eq_error_iff.2 (.inl (hasks.fault left' hleft')))
      · intro hlist
        have hn : n < 200 := by
          by_contra hlong
          exact hlist ⟨[], kinds used, n, rfl, hopen, Nat.le_of_not_lt hlong⟩
        obtain ⟨more, vs, hvalues, hlength⟩ := hopen.exists_values
        have hin := Operation.isIn hvalues (by omega)
        have hkinds : kinds (⟨.keyword .in, p⟩ :: ⟨.openParen, q⟩ ::
            (used ++ tokens (more ++ [.closeParen]))) =
              .keyword .in :: .openParen :: (kinds used ++ more ++ [.closeParen]) := by
          simp [kinds_tokens]
        refine ⟨tokens (more ++ [.closeParen]), fun rest _ => ⟨(.isIn, .list vs), ?_⟩⟩
        exact reads_iff.1 (operation_complete hin rest hkinds)
    · split at hcheck <;> cases hcheck

theorem operation_prompt (ts : List Token) : Prompt anything (run operation) ts := by
  have hmore : Completes anything (run operation) (tokens [.compare .eq, .int 0]) :=
    fun _ _ => ⟨_, rfl⟩
  have hclosed : Completes anything (run valueList) (tokens [.openParen, .int 0, .closeParen]) :=
    fun _ _ => ⟨_, rfl⟩
  rcases ts with _ | ⟨⟨kind, p⟩, ts⟩
  · exact .here_nil rfl hmore
  · cases kind with
    | compare c => exact .cons (fun _ _ => run_operation_compare c) ((value_prompt ts).map _)
    | keyword k =>
      cases k with
      | like => exact .cons (fun _ _ => run_operation_like) ((value_prompt ts).map _)
      | between => exact .cons (fun _ _ => run_operation_between) ((range_prompt ts).map _)
      | is =>
        have hcheck := (nullCheck_prompt ts).map fun operator => (operator, Value.null)
        exact .cons (fun _ _ => run_operation_is) hcheck
      | contains => exact .cons (fun _ _ => run_operation_contains) (contains_prompt ts)
      | «in» =>
        by_cases hopen : next ts = some .openParen
        · obtain ⟨q, us, rfl⟩ := next_eq_some hopen
          exact operation_list_prompt p q us
        · have hlist : Prompt anything (run valueList) ts :=
            .here (fun us hus => run_valueList_of_notOpen fun h => hopen (hus ▸ h)) hclosed
          have hoperand := hlist.map fun vs => (Operator.isIn, Value.list vs)
          exact .cons (fun _ _ => run_operation_in) hoperand
      | _ => exact .here_cons (fun _ _ => rfl) hmore
    | _ => exact .here_cons (fun _ _ => rfl) hmore

/-! ## Conditions -/

theorem run_condition_name (room : Nat) (link : Link) (name : String) {p : Position} :
    run (condition room link) (⟨.name name, p⟩ :: ts) =
      Step.andThen (fieldNext name) (fun field => Step.map (run operation) fun r =>
        .compare link ⟨field, r.1, r.2⟩) ts := by
  rw [run_condition_compare room link (by simp), run_comparisonCondition, run_comparison,
    run_field_name, Step.andThen]
  cases fieldNext name ts with
  | error fault => rfl
  | ok f =>
    simp only [bind, Except.bind, Step.map]
    cases run operation f.2 <;> rfl

/-- A comparison is a condition, with or without room for groups. -/
theorem condition_completes (room : Nat) (link : Link) : Completes anything
    (run (condition room link)) (tokens [.name "x", .compare .eq, .int 0]) := fun _ _ =>
  ⟨_, run_condition_name room link "x"⟩

theorem condition_name_prompt (room : Nat) (link : Link) (name : String) (p : Position)
    (ts : List Token) : Prompt anything (run (condition room link)) (⟨.name name, p⟩ :: ts) := by
  refine .cons (fun _ _ => run_condition_name room link name) ?_
  refine (fieldNext_prompt name ts).bind (tokens [.compare .eq, .int 0]) (fun _ _ _ => ⟨_, rfl⟩)
    (fun _ _ => nofun) (.inr fun _ => (takes_run operation).map _) ?_
  exact fun _ mid _ => (operation_prompt mid).map _

/-- A link after a condition brings another one. -/
def notLink : Follow := fun k => k.bind link? = none

theorem chainNext_of_notLink (condition : Link → Rule Condition) (c : Condition) {us : List Token}
    (h : notLink (next us)) : chainNext condition c us = .ok ([c], us) := by
  have hlink : (us.head?.bind fun t => link? t.kind) = none := by
    rw [← h, next, Option.bind_map]
    rfl
  rw [chainNext, hlink]
  rfl

theorem chain_prompt {condition : Link → Rule Condition}
    (hcondition : ∀ link ts, Prompt anything (run (condition link)) ts) (link : Link)
    (ts : List Token) : Prompt notLink (run (chain condition link)) ts := by
  rw [show run (chain condition link) = Step.andThen (run (condition link)) (chainNext condition)
    from funext (run_chain condition link)]
  refine (hcondition link ts).andThen []
    (fun c rest hrest => ⟨[c], chainNext_of_notLink condition c hrest⟩) ?_
  intro c mid hmid
  by_cases hlink : notLink (next mid)
  · exact .pass notLink [c] hlink (fun _ hk => hk) fun _ => chainNext_of_notLink condition c
  · rcases mid with _ | ⟨⟨kind, p⟩, mid⟩
    · exact absurd rfl hlink
    · obtain ⟨nextLink, hnext⟩ := Option.ne_none_iff_exists'.1 hlink
      have hlt := length_lt_of_run hmid
      refine .cons (fun p us => ?_) ((chain_prompt hcondition nextLink mid).map (c :: ·))
      rw [chainNext, List.head?_cons, Option.bind_some, show link? kind = _ from hnext]
      rfl
termination_by ts.length
decreasing_by
  simp only [List.length_cons] at hlt
  omega

theorem groupEnd_prompt (ts : List Token) : Prompt anything (run groupEnd) ts := by
  have hmore : Completes anything (run groupEnd) (tokens [.closeParen]) := fun _ _ => ⟨_, rfl⟩
  rcases ts with _ | ⟨⟨kind, p⟩, ts⟩
  · exact .here_nil rfl hmore
  · cases kind with
    | closeParen => exact .take fun _ _ => rfl
    | _ => exact .here_cons (fun _ _ => rfl) hmore

/-- What starts with no parenthesis is a comparison. -/
theorem condition_compare_prompt (room : Nat) (link : Link) (h : next ts ≠ some .openParen) :
    Prompt anything (run (condition room link)) ts := by
  have hmore := condition_completes room link
  rcases ts with _ | ⟨⟨kind, p⟩, ts⟩
  · exact .here_nil (run_condition_compare room link (by simp)) hmore
  · cases kind with
    | openParen => exact absurd rfl h
    | name name => exact condition_name_prompt room link name p ts
    | _ => exact .here_cons (fun _ _ => run_condition_compare room link (by simp)) hmore

theorem run_condition_group_eq (room : Nat) (link : Link) {p : Position} :
    run (condition (room + 1) link) (⟨.openParen, p⟩ :: ts) =
      Step.andThen (run (chain (condition room) .first)) (fun members =>
        Step.map (run groupEnd) fun _ => .group link members) ts :=
  run_condition_group room link

theorem condition_prompt (room : Nat) (link : Link) (ts : List Token) :
    Prompt anything (run (condition room link)) ts := by
  -- A group takes up room for one, so the induction is on the room that is left.
  induction room generalizing link ts with
  | zero =>
    by_cases hopen : next ts = some .openParen
    · obtain ⟨p, us, rfl⟩ := next_eq_some hopen
      -- A group that there is no room for is a fault of another sort.
      have hnesting : run (condition 0 link) (⟨.openParen, p⟩ :: us) = .error (.nesting p) := rfl
      exact .other hnesting (by simp)
    · exact condition_compare_prompt 0 link hopen
  | succ room ih =>
    by_cases hopen : next ts = some .openParen
    · obtain ⟨p, us, rfl⟩ := next_eq_some hopen
      refine .cons (fun _ _ => run_condition_group_eq room link) ?_
      refine (chain_prompt ih .first us).bind (tokens [.closeParen]) (fun _ _ _ => ⟨_, rfl⟩)
        (fun _ _ => rfl) (.inr fun _ => (takes_run groupEnd).map _) ?_
      exact fun _ mid _ => (groupEnd_prompt mid).map _
    · exact condition_compare_prompt (room + 1) link hopen

/-! ## Orderings -/

/-- After a field, a key may have a direction, and a comma brings another key. -/
def endsField : Follow := fun k =>
  k ≠ some (.keyword .asc) ∧ k ≠ some (.keyword .desc) ∧ k ≠ some .comma

/-- What may follow an ordering. -/
def endsKeys : Follow := fun k => notOpen k ∧ endsField k

/-- After the field of a key comes its direction, and then another key or the end of the
ordering. -/
def keyNext (field : String) : Step (List OrderItem) := fun ts =>
  orderNext ⟨field, (direction ts).1⟩ (direction ts).2

theorem orderItems_eq : run orderItems = Step.andThen (run field) keyNext :=
  funext run_orderItems

theorem orderNext_of_ne (item : OrderItem) {us : List Token} (h : next us ≠ some .comma) :
    orderNext item us = .ok ([item], us) := by
  rcases us with _ | ⟨⟨kind, p⟩, us⟩
  · rfl
  · cases kind with
    | comma => exact absurd rfl h
    | _ => rfl

theorem keyNext_of_endsField (field : String) {us : List Token} (h : endsField (next us)) :
    keyNext field us = .ok ([⟨field, .ascending⟩], us) := by
  obtain ⟨hasc, hdesc, hcomma⟩ := h
  have hdirection : direction us = (.ascending, us) := by
    unfold direction
    split
    · exact absurd rfl hdesc
    · exact absurd rfl hasc
    · rfl
  rw [keyNext, hdirection, orderNext_of_ne _ hcomma]

theorem keyNext_completes (field : String) : Completes endsKeys (keyNext field) [] :=
  fun _ hrest => ⟨_, keyNext_of_endsField field hrest.2⟩

/-- The keys after a comma are prompt, if there is one. -/
def PromptTail (ts : List Token) : Prop :=
  ∀ p us, ts = ⟨.comma, p⟩ :: us → Prompt endsKeys (run orderItems) us

theorem orderNext_prompt (item : OrderItem) (htail : PromptTail ts) :
    Prompt endsKeys (orderNext item) ts := by
  by_cases hcomma : next ts = some .comma
  · obtain ⟨p, us, rfl⟩ := next_eq_some hcomma
    exact .cons (fun _ _ => rfl) ((htail p us rfl).map _)
  · exact .pass (· ≠ some .comma) [item] hcomma (fun _ hk => hk.2.2.2)
      fun _ => orderNext_of_ne item

theorem keyNext_prompt (field : String) (htail : PromptTail (direction ts).2) :
    Prompt endsKeys (keyNext field) ts := by
  by_cases hasc : next ts = some (.keyword .asc)
  · obtain ⟨p, us, rfl⟩ := next_eq_some hasc
    exact .cons (fun _ _ => rfl) (orderNext_prompt ⟨field, .ascending⟩ htail)
  by_cases hdesc : next ts = some (.keyword .desc)
  · obtain ⟨p, us, rfl⟩ := next_eq_some hdesc
    exact .cons (fun _ _ => rfl) (orderNext_prompt ⟨field, .descending⟩ htail)
  by_cases hcomma : next ts = some .comma
  · obtain ⟨p, us, rfl⟩ := next_eq_some hcomma
    have hkeys := (htail p us rfl).map (⟨field, .ascending⟩ :: ·)
    exact .cons (fun _ _ => rfl) hkeys
  exact .pass endsField [⟨field, .ascending⟩] ⟨hasc, hdesc, hcomma⟩ (fun _ hk => hk.2)
    fun _ => keyNext_of_endsField field

theorem orderItems_prompt (ts : List Token) : Prompt endsKeys (run orderItems) ts := by
  rw [orderItems_eq]
  refine (field_prompt ts).bind [] keyNext_completes (fun _ hrest => hrest.1)
    (.inl fun _ hk => hk.1) ?_
  intro field mid hmid
  refine keyNext_prompt field fun p us hus => ?_
  -- The keys after the comma are fewer, so the induction is on the number of tokens.
  have hlt := length_lt_of_run hmid
  have hle := length_direction_le mid
  exact orderItems_prompt us
termination_by ts.length
decreasing_by
  rw [hus, List.length_cons] at hle
  omega

theorem orderItems_completes : Completes endsKeys (run orderItems) (tokens [.name "x"]) := by
  rw [orderItems_eq]
  exact field_completes.andThen keyNext_completes fun _ hrest => hrest.1

/-! ## Clauses -/

/-- A clause that may be left out: a keyword starts it, and without the keyword nothing is read. -/
theorem clause_prompt {k : Keyword} {clause inner : Step α} (absent : α)
    (hpresent : ∀ p us, clause (⟨.keyword k, p⟩ :: us) = inner us)
    (habsent : ∀ us, next us ≠ some (.keyword k) → clause us = .ok (absent, us))
    (hinner : ∀ us, Prompt theEnd inner us) (ts : List Token) : Prompt theEnd clause ts := by
  by_cases hk : next ts = some (.keyword k)
  · obtain ⟨p, us, rfl⟩ := next_eq_some hk
    exact .cons hpresent (hinner us)
  · refine .pass (· ≠ some (.keyword k)) absent hk ?_ habsent
    rintro _ rfl
    exact nofun

theorem whereClause_prompt (ts : List Token) : Prompt theEnd whereClause ts := by
  refine clause_prompt [] (fun _ _ => whereClause_where) (fun us hus => ?_) (fun us => ?_) ts
  · unfold whereClause
    split
    · exact absurd rfl hus
    · rfl
  · refine (chain_prompt (condition_prompt maxGroupDepth) .first us).mono ?_
    rintro _ rfl
    rfl

theorem orderClause_prompt (ts : List Token) : Prompt theEnd orderClause ts := by
  refine clause_prompt [] (fun _ _ => orderClause_order) (fun us hus => ?_) (fun us => ?_) ts
  · unfold orderClause
    split
    · exact absurd rfl hus
    · rfl
  · have hkeys : Prompt endsKeys (Step.andThen (run (keyword .by)) fun _ => run orderItems) us :=
      (keyword_prompt .by us).andThen (tokens [.name "x"]) (fun _ => orderItems_completes)
        fun _ mid _ => orderItems_prompt mid
    refine hkeys.mono ?_
    rintro _ rfl
    exact ⟨nofun, nofun, nofun, nofun⟩

theorem limit_prompt (ts : List Token) : Prompt anything (run limit) ts := by
  have hmore : Completes anything (run limit) (tokens [.int 0]) := fun _ _ => ⟨_, rfl⟩
  rcases ts with _ | ⟨⟨kind, p⟩, ts⟩
  · exact .here_nil rfl hmore
  · cases kind with
    | int n =>
      by_cases hn : 0 ≤ n
      · have hok : ∀ p us, run limit (⟨.int n, p⟩ :: us) = .ok (n.toNat, us) := by
          intro p us
          simp only [run, limit, if_pos hn, Except.map]
        exact .take hok
      · have hnegative : run limit (⟨.int n, p⟩ :: ts) = .error (.negativeLimit p) := by
          simp only [run, limit, if_neg hn, Except.map]
        exact .other hnegative (by simp)
    | _ => exact .here_cons (fun _ _ => rfl) hmore

theorem limitClause_prompt (ts : List Token) : Prompt theEnd limitClause ts := by
  refine clause_prompt none (fun _ _ => limitClause_limit) (fun us hus => ?_) (fun us => ?_) ts
  · unfold limitClause
    split
    · exact absurd rfl hus
    · rfl
  · exact ((limit_prompt us).map some).mono fun _ _ => trivial

/-- The last word, as a step. -/
def latest : Step Bool := fun ts => .ok (latestClause ts)

theorem latest_prompt (ts : List Token) : Prompt theEnd latest ts := by
  have hpresent : ∀ p us, latest (⟨.keyword .latest, p⟩ :: us) = .ok (true, us) := fun _ _ => rfl
  refine clause_prompt false hpresent (fun us hus => ?_) (fun us => ?_) ts
  · unfold latest latestClause
    split
    · exact absurd rfl hus
    · rfl
  · exact .pass anything true trivial (fun _ _ => trivial) fun _ _ => rfl

/-! ## Queries -/

/-- The end of a query. -/
def atEnd (what : Expectation) (q : Query) : Step Query := fun ts =>
  if ts.isEmpty then .ok (q, ts) else .error (.expected what ts)

theorem atEnd_prompt (what : Expectation) (q : Query) (ts : List Token) :
    Prompt theEnd (atEnd what q) ts := by
  rcases ts with _ | ⟨⟨kind, p⟩, ts⟩
  · refine .pass theEnd q rfl (fun _ hk => hk) fun us hus => ?_
    rw [next_eq_none hus]
    rfl
  · exact .here_cons (fun _ _ => rfl) (completes_nil rfl)

/-- The clauses of a query and its end, as steps. -/
def clauseSteps (e : Entity) : QueryKind → Step Query
  | .count => Step.andThen whereClause fun conditions =>
      atEnd .whereOrEnd ⟨.count, e, conditions, [], none, false, none⟩
  | .records => Step.andThen whereClause fun conditions => Step.andThen orderClause fun orderBy =>
      Step.andThen limitClause fun limit => Step.andThen latest fun latest =>
        atEnd .clauseOrEnd ⟨.records, e, conditions, orderBy, limit, latest, none⟩

theorem clauses_eq (kind : QueryKind) (e : Entity) (ts : List Token) :
    (clauses kind e ts).map (fun q => (q, [])) = clauseSteps e kind ts := by
  have hend : ∀ (what : Expectation) (q : Query) (us : List Token),
      Except.map (fun q => (q, [])) (if us.isEmpty then .ok q else .error (.expected what us)) =
        atEnd what q us := by
    intro what q us
    cases us <;> rfl
  rw [clauses]
  cases kind with
  | count =>
    rw [clauseSteps, Step.andThen]
    cases whereClause ts with
    | error fault => rfl
    | ok r => exact hend _ _ r.2
  | records =>
    rw [clauseSteps, Step.andThen]
    cases whereClause ts with
    | error fault => rfl
    | ok r =>
      simp only [bind, Except.bind, Step.andThen, latest]
      cases orderClause r.2 with
      | error fault => rfl
      | ok r =>
        simp only
        cases limitClause r.2 with
        | error fault => rfl
        | ok r => exact hend _ _ (latestClause r.2).2

theorem clauseSteps_prompt (e : Entity) (kind : QueryKind) (ts : List Token) :
    Prompt theEnd (clauseSteps e kind) ts := by
  cases kind with
  | count =>
    rw [clauseSteps]
    refine (whereClause_prompt ts).andMaybe (fun _ => completes_nil rfl) fun _ mid _ => ?_
    exact atEnd_prompt _ _ mid
  | records =>
    rw [clauseSteps]
    refine (whereClause_prompt ts).andMaybe (fun _ => completes_nil rfl) fun _ mid _ => ?_
    refine (orderClause_prompt mid).andMaybe (fun _ => completes_nil rfl) fun _ mid _ => ?_
    refine (limitClause_prompt mid).andMaybe (fun _ => completes_nil rfl) fun _ mid _ => ?_
    refine (latest_prompt mid).andMaybe (fun _ => completes_nil rfl) fun _ mid _ => ?_
    exact atEnd_prompt _ _ mid

theorem verb_prompt (ts : List Token) : Prompt anything (run verb) ts := by
  have hmore : Completes anything (run verb) (tokens [.keyword .show]) := fun _ _ => ⟨_, rfl⟩
  rcases ts with _ | ⟨⟨kind, p⟩, ts⟩
  · exact .here_nil rfl hmore
  · cases kind with
    | keyword k =>
      cases k with
      | «show» => exact .take fun _ _ => rfl
      | find => exact .take fun _ _ => rfl
      | count => exact .take fun _ _ => rfl
      | _ => exact .here_cons (fun _ _ => rfl) hmore
    | _ => exact .here_cons (fun _ _ => rfl) hmore

theorem run_entity_name (name : String) {p : Position} : run entity (⟨.name name, p⟩ :: ts) =
    (Entity.ofName? name).elim (.error (.unknownEntity name p)) fun e => .ok (e, ts) := by
  rw [run, entity]
  cases Entity.ofName? name <;> rfl

theorem entity_completes : Completes anything (run entity) (tokens [.name "devices"]) := by
  have hdevices : Entity.ofName? "devices" = some .devices := by decide +kernel
  intro rest _
  exact ⟨.devices, (run_entity_name "devices").trans (by rw [hdevices]; rfl)⟩

theorem entity_prompt (ts : List Token) : Prompt anything (run entity) ts := by
  have hmore := entity_completes
  rcases ts with _ | ⟨⟨kind, p⟩, ts⟩
  · exact .here_nil rfl hmore
  · cases kind with
    | name name =>
      cases hname : Entity.ofName? name with
      | none =>
        have hunknown : run entity (⟨.name name, p⟩ :: ts) = .error (.unknownEntity name p) := by
          rw [run_entity_name, hname]
          rfl
        exact .other hunknown (by simp)
      | some e =>
        have hok : ∀ p us, run entity (⟨.name name, p⟩ :: us) = .ok (e, us) := by
          intro p us
          rw [run_entity_name, hname]
          rfl
        exact .take hok
    | _ => exact .here_cons (fun _ _ => rfl) hmore

/-- A whole query, as steps. -/
def querySteps : Step Query :=
  Step.andThen (run verb) fun kind => Step.andThen (run entity) fun e => clauseSteps e kind

theorem query_map_eq (ts : List Token) : (query ts).map (fun q => (q, [])) = querySteps ts := by
  rw [query_eq, querySteps, Step.andThen]
  cases run verb ts with
  | error fault => rfl
  | ok kind =>
    simp only [bind, Except.bind, Step.andThen]
    cases run entity kind.2 with
    | error fault => rfl
    | ok e => exact clauses_eq kind.1 e.1 e.2

theorem clauseSteps_completes (e : Entity) (kind : QueryKind) :
    Completes theEnd (clauseSteps e kind) [] := by
  cases kind with
  | count => exact completes_nil rfl
  | records => exact completes_nil rfl

theorem querySteps_prompt (ts : List Token) : Prompt theEnd querySteps ts := by
  rw [querySteps]
  refine (verb_prompt ts).andThen (tokens [.name "devices"]) (fun kind => ?_) fun kind mid _ => ?_
  · exact entity_completes.andThen (fun e => clauseSteps_completes e kind) fun _ _ => trivial
  · refine (entity_prompt mid).andThen [] (fun e => clauseSteps_completes e kind) ?_
    exact fun e mid _ => clauseSteps_prompt e kind mid

theorem query_eq_ok_iff {q : Query} : query ts = .ok q ↔ querySteps ts = .ok (q, []) := by
  rw [← query_map_eq, map_eq_ok_iff]
  simp

theorem query_eq_error_iff {fault : GrammarFault} :
    query ts = .error fault ↔ querySteps ts = .error fault := by
  rw [← query_map_eq]
  cases query ts with
  | error e => simp [Except.map]
  | ok q => simp [Except.map]

/-- Where the parser asks for something else than the next token, no query goes on with that token,
and what it has read goes on to a query. -/
theorem query_expected {left : List Token} (h : query ts = .error (.expected what left)) :
    ∃ read, ts = read ++ left ∧
      (∀ left', next left' = next left → ∀ q, query (read ++ left') ≠ .ok q) ∧
      (¬InLongList (kinds read) → ∃ more q, query (read ++ more) = .ok q) := by
  obtain ⟨read, hts, hasks⟩ :=
    (querySteps_prompt ts).expected what left (query_eq_error_iff.1 h)
  refine ⟨read, hts, fun left' hleft' q hq => ?_, fun hlist => ?_⟩
  · rw [query_eq_error_iff.2 (hasks.fault left' hleft')] at hq
    cases hq
  · obtain ⟨more, hmore⟩ := hasks.viable hlist
    obtain ⟨q, hq⟩ := hmore [] rfl
    exact ⟨more, q, query_eq_ok_iff.2 (List.append_nil (read ++ more) ▸ hq)⟩

end Parser

/-- The kinds of the tokens up to the end, for which there is none. -/
def TokenStream.kindsToEnd (stream : TokenStream) : List (Option TokenKind) :=
  stream.tokens.map (fun t => some t.kind) ++ [none]

section Stream

variable {stream : TokenStream} {read left : List Token}

theorem TokenStream.take_kindsToEnd (h : stream.tokens = read ++ left) :
    stream.kindsToEnd.take (read.length + 1) =
      read.map (fun t => some t.kind) ++ [Parser.next left] := by
  rw [kindsToEnd, h, List.map_append, List.append_assoc, List.take_append, List.length_map,
    List.take_of_length_le (by simp), Nat.add_sub_cancel_left]
  cases left <;> rfl

/-- Tokens that start with the given kinds are those of `read` and others, of which the first is the
last one given. -/
theorem Parser.exists_of_kindsToEnd {k : Option TokenKind} {us : List Token}
    (h : read.map (fun t => some t.kind) ++ [k] <+: us.map (fun t => some t.kind) ++ [none]) :
    ∃ left, kinds (read ++ left) = kinds us ∧ next left = k := by
  induction read generalizing us with
  | nil =>
    refine ⟨us, rfl, ?_⟩
    cases us with
    | nil => simpa [eq_comm, next] using h
    | cons u us => simpa [eq_comm, next] using h
  | cons t read ih =>
    cases us with
    | nil => simp at h
    | cons u us =>
      simp only [List.map_cons, List.cons_append, List.cons_prefix_cons, Option.some.injEq] at h
      obtain ⟨left, hleft, hnext⟩ := ih h.2
      exact ⟨left, congrArg₂ List.cons h.1 hleft, hnext⟩

/-- Whether tokens are a query does not depend on their places. -/
theorem Parser.query_congr {ts us : List Token} {q : Query} (h : kinds ts = kinds us)
    (hq : query us = .ok q) : query ts = .ok q := by
  obtain ⟨hderived, hnesting⟩ := query_sound hq
  exact query_complete hderived hnesting h

theorem TokenStream.query_eq_expected {p : Position} {what : Expectation}
    {found : Option TokenKind}
    (h : stream.query = .error (.syntaxError p (.expected what found))) :
    ∃ left, Parser.query stream.tokens = .error (.expected what left) ∧
      p = (left.head?.map Token.position).getD stream.finish ∧ found = Parser.next left := by
  obtain ⟨fault, hfault, hparse⟩ := mapError_eq_error_iff.1 h
  cases fault <;> cases hparse
  exact ⟨_, hfault, rfl, rfl⟩

end Stream

/-- A syntax error points at the first token that does not fit. Where the parser finds something
else than it expects, no query goes on with what it finds, whether that is a token or the end. What
has been read before it goes on to a query, unless it ends inside a list that holds 200 values. -/
theorem query_first_fault {stream : TokenStream} {p : Position} {what : Expectation}
    {found : Option TokenKind}
    (h : stream.query = .error (.syntaxError p (.expected what found))) :
    ∃ read left, stream.tokens = read ++ left ∧
      Parser.query stream.tokens = .error (.expected what left) ∧
      p = (left.head?.map Token.position).getD stream.finish ∧
      found = left.head?.map Token.kind ∧
      (¬Grammar.InLongList (read.map Token.kind) →
        ∃ (other : TokenStream) (q : Query), read <+: other.tokens ∧ other.query = .ok q) ∧
      ∀ (other : TokenStream) (q : Query),
        stream.kindsToEnd.take (read.length + 1) <+: other.kindsToEnd → other.query ≠ .ok q := by
  obtain ⟨left, hfault, hp, hfound⟩ := TokenStream.query_eq_expected h
  obtain ⟨read, hread, hnone, hsome⟩ := Parser.query_expected hfault
  refine ⟨read, left, hread, hfault, hp, hfound, fun hlist => ?_, fun other q hother hq => ?_⟩
  · obtain ⟨more, q, hq⟩ := hsome hlist
    exact ⟨⟨read ++ more, stream.finish⟩, q, List.prefix_append read more,
      TokenStream.query_eq_ok.2 hq⟩
  · rw [TokenStream.take_kindsToEnd hread] at hother
    obtain ⟨left', hkinds, hnext⟩ := Parser.exists_of_kindsToEnd hother
    have hother := TokenStream.query_eq_ok.1 hq
    exact hnone left' hnext q (Parser.query_congr hkinds hother)

/-- A word where a list inside a group asks for a comma or its end. Without the word the list and
the group can be closed, and with it there is no query. -/
theorem query_first_fault_open_list : ∃ (stream : TokenStream) (read left : List Token),
    tokenize "count devices where (a in (1 limit" = .ok stream ∧
    stream.query =
      .error (.syntaxError ⟨29, 1, 30⟩ (.expected .commaOrClose (some (.keyword .limit)))) ∧
    stream.tokens = read ++ left ∧ left.head?.map Token.kind = some (.keyword .limit) ∧
    (∃ (other : TokenStream) (q : Query), read <+: other.tokens ∧ other.query = .ok q) ∧
    ∀ (other : TokenStream) (q : Query),
      stream.kindsToEnd.take (read.length + 1) <+: other.kindsToEnd → other.query ≠ .ok q := by
  obtain ⟨stream, hstream, hlength, herror⟩ : ∃ stream : TokenStream,
      tokenize "count devices where (a in (1 limit" = .ok stream ∧ stream.tokens.length = 9 ∧
      stream.query =
        .error (.syntaxError ⟨29, 1, 30⟩ (.expected .commaOrClose (some (.keyword .limit)))) := by
    refine ⟨⟨[⟨.keyword .count, ⟨0, 1, 1⟩⟩, ⟨.name "devices", ⟨6, 1, 7⟩⟩,
      ⟨.keyword .where, ⟨14, 1, 15⟩⟩, ⟨.openParen, ⟨20, 1, 21⟩⟩, ⟨.name "a", ⟨21, 1, 22⟩⟩,
      ⟨.keyword .in, ⟨23, 1, 24⟩⟩, ⟨.openParen, ⟨26, 1, 27⟩⟩, ⟨.int 1, ⟨27, 1, 28⟩⟩,
      ⟨.keyword .limit, ⟨29, 1, 30⟩⟩], ⟨34, 1, 35⟩⟩, rfl, rfl, ?_⟩
    cbv
  obtain ⟨read, left, htokens, -, -, hfound, hsome, hnone⟩ := query_first_fault herror
  have hshort : ¬Grammar.InLongList (read.map Token.kind) := by
    intro hlist
    have hle := hlist.le_length
    rw [htokens, List.length_append] at hlength
    rw [List.length_map] at hle
    omega
  exact ⟨stream, read, left, hstream, herror, htokens, hfound.symm, hsome hshort, hnone⟩

end NetQuery
