import NetQuery.Proofs.Rules

/-!
# Where a fault of the grammar shows

A rule of the parser looks at the tokens that are left and at no others. So what it leaves is an end
of these tokens, and a fault shows at one of them or where they end. Each rule has one lemma that
says so, and a rule that is made of others takes it from them step by step.
-/

namespace NetQuery

/-- The fault shows at one of the tokens or where they end. -/
def GrammarFault.PointsInto (ts : List Token) : GrammarFault → Prop
  | .expected _ left => left <:+ ts
  | .nesting p | .listLength p | .negativeLimit p | .unknownEntity _ p => ∃ t ∈ ts, t.position = p

theorem GrammarFault.PointsInto.mono {ts us : List Token} {fault : GrammarFault}
    (h : fault.PointsInto us) (hus : us <:+ ts) : fault.PointsInto ts := by
  have hmem : ∀ {p : Position}, (∃ t ∈ us, t.position = p) → ∃ t ∈ ts, t.position = p := by
    rintro p ⟨t, ht, hp⟩
    exact ⟨t, hus.subset ht, hp⟩
  cases fault with
  | expected what left => exact List.IsSuffix.trans h hus
  | nesting p => exact hmem h
  | listLength p => exact hmem h
  | negativeLimit p => exact hmem h
  | unknownEntity name p => exact hmem h

namespace Parser

variable {α β : Type} {ts us : List Token}

/-- An outcome of a step from the tokens `ts`: what it leaves is an end of them, and a fault of it
shows in them. -/
def Stays (ts : List Token) : Except GrammarFault (α × List Token) → Prop
  | .error fault => fault.PointsInto ts
  | .ok r => r.2 <:+ ts

theorem Stays.mono {x : Except GrammarFault (α × List Token)} (h : Stays us x) (hus : us <:+ ts) :
    Stays ts x := by
  cases x with
  | error fault => exact GrammarFault.PointsInto.mono h hus
  | ok r => exact List.IsSuffix.trans h hus

/-- Steps in a row stay within the tokens if each of them does. -/
theorem Stays.bind {x : Except GrammarFault (α × List Token)}
    {k : α × List Token → Except GrammarFault (β × List Token)} (hx : Stays ts x)
    (hk : ∀ a rest, x = .ok (a, rest) → Stays rest (k (a, rest))) : Stays ts (x >>= k) := by
  cases x with
  | error fault => exact hx
  | ok r => exact (hk r.1 r.2 rfl).mono hx

/-- A token that has been taken does not matter to what comes after it. -/
theorem Stays.cons {x : Except GrammarFault (α × List Token)} (h : Stays ts x) (t : Token) :
    Stays (t :: ts) x :=
  h.mono (List.suffix_cons t ts)

/-- What a step makes of what it read does not matter. -/
theorem Stays.map {x : Except GrammarFault (α × List Token)} (h : Stays ts x)
    (f : α × List Token → β) : Stays ts (x >>= fun r => .ok (f r, r.2)) :=
  h.bind fun _ _ _ => List.suffix_refl _

/-! ## Values -/

theorem value_stays (ts : List Token) : Stays ts (run value ts) := by
  rcases ts with _ | ⟨t, ts⟩
  · exact List.suffix_refl _
  · rw [run_value_cons]
    cases literal? t.kind with
    | none => exact List.suffix_refl _
    | some v => exact List.suffix_cons t ts

theorem keyword_stays (k : Keyword) (ts : List Token) : Stays ts (run (keyword k) ts) := by
  rcases ts with _ | ⟨⟨kind, p⟩, ts⟩
  · exact List.suffix_refl _
  · cases kind with
    | keyword k' =>
      rw [run_keyword_cons]
      split
      · exact List.suffix_cons _ ts
      · exact List.suffix_refl _
    | _ => exact List.suffix_refl _

theorem listTail_stays (ts : List Token) : Stays ts (run listTail ts) := by
  rw [run_listTail]
  refine (value_stays ts).bind fun v rest hrest => ?_
  rcases rest with _ | ⟨⟨kind, p⟩, rest⟩
  · exact List.suffix_refl _
  · cases kind with
    | comma =>
      have hlt := length_lt_of_run hrest
      exact ((listTail_stays rest).map _).cons _
    | closeParen => exact List.suffix_cons _ rest
    | _ => exact List.suffix_refl _
termination_by ts.length
decreasing_by
  simp only [List.length_cons] at hlt
  omega

theorem valueList_stays (ts : List Token) : Stays ts (run valueList ts) := by
  rcases ts with _ | ⟨⟨kind, p⟩, ts⟩
  · exact List.suffix_refl _
  · cases kind with
    | openParen =>
      rw [run_valueList]
      have hstays := listTail_stays ts
      generalize run listTail ts = x at hstays
      cases x with
      | error fault => exact hstays.cons _
      | ok r =>
        -- A list that is too long shows at the parenthesis that opens it.
        change Stays _ (if maxListValues < r.1.length then .error (.listLength p) else .ok r)
        split
        · exact ⟨_, List.mem_cons_self, rfl⟩
        · exact hstays.cons _
    | _ => exact List.suffix_refl _

theorem range_stays (ts : List Token) : Stays ts (run range ts) := by
  rw [run_range]
  refine (value_stays ts).bind fun low rest _ => ?_
  refine (keyword_stays .and rest).bind fun _ rest _ => ?_
  exact (value_stays rest).map _

/-! ## Fields -/

theorem argumentTail_stays (ts : List Token) : Stays ts (run argumentTail ts) := by
  rcases ts with _ | ⟨⟨kind, p⟩, ts⟩
  · exact List.suffix_refl _
  · cases kind with
    | name arg =>
      rw [run_argumentTail_name]
      rcases ts with _ | ⟨⟨kind, q⟩, ts⟩
      · exact List.suffix_cons _ _
      · refine Stays.cons ?_ _
        cases kind with
        | comma => exact ((argumentTail_stays ts).map _).cons _
        | closeParen => exact List.suffix_cons _ ts
        | _ => exact List.suffix_refl _
    | _ => exact List.suffix_refl _
termination_by ts.length

theorem field_stays (ts : List Token) : Stays ts (run field ts) := by
  rcases ts with _ | ⟨⟨kind, p⟩, ts⟩
  · exact List.suffix_refl _
  · cases kind with
    | name name =>
      rcases ts with _ | ⟨⟨kind, q⟩, ts⟩
      · exact List.suffix_cons _ _
      · cases kind with
        | openParen =>
          rw [run_field_call]
          exact (((argumentTail_stays ts).map _).cons _).cons _
        | _ => exact List.suffix_cons _ _
    | _ => exact List.suffix_refl _

/-! ## Comparisons -/

theorem nullCheck_stays (ts : List Token) : Stays ts (run nullCheck ts) := by
  by_cases hnot : ∃ p us, ts = ⟨.keyword .not, p⟩ :: us
  · obtain ⟨p, us, rfl⟩ := hnot
    rw [run_nullCheck_not]
    exact ((keyword_stays .null us).map _).cons _
  · rw [run_nullCheck fun p us h => hnot ⟨p, us, h⟩]
    exact (keyword_stays .null ts).map _

theorem operation_stays (ts : List Token) : Stays ts (run operation ts) := by
  rcases ts with _ | ⟨⟨kind, p⟩, ts⟩
  · exact List.suffix_refl _
  · cases kind with
    | compare c =>
      rw [run_operation_compare]
      exact ((value_stays ts).map _).cons _
    | keyword k =>
      cases k with
      | like =>
        rw [run_operation_like]
        exact ((value_stays ts).map _).cons _
      | «in» =>
        rw [run_operation_in]
        exact ((valueList_stays ts).map _).cons _
      | between =>
        rw [run_operation_between]
        exact ((range_stays ts).map _).cons _
      | is =>
        rw [run_operation_is]
        exact ((nullCheck_stays ts).map _).cons _
      | contains =>
        refine Stays.cons ?_ _
        rcases ts with _ | ⟨⟨kind, q⟩, ts⟩
        · exact List.suffix_refl _
        · cases kind with
          | text v => exact List.suffix_cons _ ts
          | _ => exact List.suffix_refl _
      | _ => exact List.suffix_refl _
    | _ => exact List.suffix_refl _

theorem comparison_stays (ts : List Token) : Stays ts (run comparison ts) := by
  rw [run_comparison]
  refine (field_stays ts).bind fun f rest _ => ?_
  exact (operation_stays rest).map _

/-! ## Conditions -/

theorem chain_stays {condition : Link → Rule Condition}
    (hcondition : ∀ link ts, Stays ts (run (condition link) ts)) (link : Link) (ts : List Token) :
    Stays ts (run (chain condition link) ts) := by
  rw [run_chain]
  refine (hcondition link ts).bind fun c rest hrest => ?_
  rcases rest with _ | ⟨t, rest⟩
  · exact List.suffix_refl _
  · have hlt := length_lt_of_run hrest
    simp only [chainNext, List.head?_cons, Option.bind_some, List.tail_cons]
    cases link? t.kind with
    | none => exact List.suffix_refl _
    | some next =>
      exact ((chain_stays hcondition next rest).map _).cons t
termination_by ts.length
decreasing_by
  simp only [List.length_cons] at hlt
  omega

theorem groupEnd_stays (ts : List Token) : Stays ts (run groupEnd ts) := by
  rcases ts with _ | ⟨⟨kind, p⟩, ts⟩
  · exact List.suffix_refl _
  · cases kind with
    | closeParen => exact List.suffix_cons _ ts
    | _ => exact List.suffix_refl _

theorem condition_stays_compare (room : Nat) (link : Link)
    (h : ∀ p us, ts ≠ ⟨.openParen, p⟩ :: us) : Stays ts (run (condition room link) ts) := by
  rw [run_condition_compare room link h, run_comparisonCondition]
  exact (comparison_stays ts).map _

theorem condition_stays (room : Nat) (link : Link) (ts : List Token) :
    Stays ts (run (condition room link) ts) := by
  -- A group takes up room for one, so the induction is on the room that is left.
  induction room generalizing link ts with
  | zero =>
    by_cases hopen : ∃ p us, ts = ⟨.openParen, p⟩ :: us
    · obtain ⟨p, us, rfl⟩ := hopen
      exact ⟨_, List.mem_cons_self, rfl⟩
    · exact condition_stays_compare 0 link fun p us h => hopen ⟨p, us, h⟩
  | succ room ih =>
    by_cases hopen : ∃ p us, ts = ⟨.openParen, p⟩ :: us
    · obtain ⟨p, us, rfl⟩ := hopen
      rw [run_condition_group]
      refine ((chain_stays ih .first us).bind fun members rest _ => ?_).cons _
      exact (groupEnd_stays rest).map _
    · exact condition_stays_compare (room + 1) link fun p us h => hopen ⟨p, us, h⟩

/-! ## Clauses -/

theorem direction_suffix (ts : List Token) : (direction ts).2 <:+ ts := by
  unfold direction
  split
  · exact List.suffix_cons _ _
  · exact List.suffix_cons _ _
  · exact List.suffix_refl _

theorem orderItems_stays (ts : List Token) : Stays ts (run orderItems ts) := by
  rw [run_orderItems]
  refine (field_stays ts).bind fun f rest hrest => ?_
  have hlt := length_lt_of_run hrest
  have hsuffix := direction_suffix rest
  refine Stays.mono ?_ hsuffix
  simp only
  generalize direction rest = d at hsuffix
  obtain ⟨direction, rest'⟩ := d
  rcases rest' with _ | ⟨⟨kind, p⟩, rest'⟩
  · exact List.suffix_refl _
  · cases kind with
    | comma =>
      have hle := hsuffix.length_le
      exact ((orderItems_stays rest').map _).cons _
    | _ => exact List.suffix_refl _
termination_by ts.length
decreasing_by
  simp only [List.length_cons] at hle
  omega

theorem whereClause_stays (ts : List Token) : Stays ts (whereClause ts) := by
  rcases ts with _ | ⟨⟨kind, p⟩, ts⟩
  · exact List.suffix_refl _
  · cases kind with
    | keyword k =>
      cases k with
      | «where» =>
        rw [whereClause_where]
        exact (chain_stays (condition_stays maxGroupDepth) .first ts).cons _
      | _ => exact List.suffix_refl _
    | _ => exact List.suffix_refl _

theorem orderClause_stays (ts : List Token) : Stays ts (orderClause ts) := by
  rcases ts with _ | ⟨⟨kind, p⟩, ts⟩
  · exact List.suffix_refl _
  · cases kind with
    | keyword k =>
      cases k with
      | order =>
        rw [orderClause_order]
        exact ((keyword_stays .by ts).bind fun _ rest _ => orderItems_stays rest).cons _
      | _ => exact List.suffix_refl _
    | _ => exact List.suffix_refl _

theorem limit_stays (ts : List Token) : Stays ts (run limit ts) := by
  rcases ts with _ | ⟨⟨kind, p⟩, ts⟩
  · exact List.suffix_refl _
  · cases kind with
    | int n =>
      simp only [run, limit]
      split
      · exact List.suffix_cons _ ts
      · exact ⟨_, List.mem_cons_self, rfl⟩
    | _ => exact List.suffix_refl _

theorem limitClause_stays (ts : List Token) : Stays ts (limitClause ts) := by
  rcases ts with _ | ⟨⟨kind, p⟩, ts⟩
  · exact List.suffix_refl _
  · cases kind with
    | keyword k =>
      cases k with
      | limit =>
        rw [limitClause_limit]
        exact ((limit_stays ts).map _).cons _
      | _ => exact List.suffix_refl _
    | _ => exact List.suffix_refl _

theorem latestClause_suffix (ts : List Token) : (latestClause ts).2 <:+ ts := by
  unfold latestClause
  split
  · exact List.suffix_cons _ _
  · exact List.suffix_refl _

theorem verb_stays (ts : List Token) : Stays ts (run verb ts) := by
  rcases ts with _ | ⟨⟨kind, p⟩, ts⟩
  · exact List.suffix_refl _
  · cases kind with
    | keyword k =>
      cases k with
      | «show» => exact List.suffix_cons _ ts
      | find => exact List.suffix_cons _ ts
      | count => exact List.suffix_cons _ ts
      | _ => exact List.suffix_refl _
    | _ => exact List.suffix_refl _

theorem entity_stays (ts : List Token) : Stays ts (run entity ts) := by
  rcases ts with _ | ⟨⟨kind, p⟩, ts⟩
  · exact List.suffix_refl _
  · cases kind with
    | name name =>
      simp only [run, entity]
      cases Entity.ofName? name with
      | none => exact ⟨_, List.mem_cons_self, rfl⟩
      | some e => exact List.suffix_cons _ ts
    | _ => exact List.suffix_refl _

/-! ## Queries -/

/-- A fault of a step and of what is done next shows in the tokens, if each of them shows there. -/
theorem Stays.pointsInto {x : Except GrammarFault (α × List Token)}
    {k : α × List Token → Except GrammarFault β} {fault : GrammarFault} (hx : Stays ts x)
    (h : x >>= k = .error fault)
    (hk : ∀ a rest, k (a, rest) = .error fault → fault.PointsInto rest) : fault.PointsInto ts := by
  cases x with
  | error first =>
    cases h
    exact hx
  | ok r => exact (hk r.1 r.2 h).mono hx

theorem clauses_pointsInto {kind : QueryKind} {e : Entity} {fault : GrammarFault}
    (h : clauses kind e ts = .error fault) : fault.PointsInto ts := by
  refine (whereClause_stays ts).pointsInto h fun conditions rest h => ?_
  cases kind with
  | count =>
    simp only at h
    split at h
    · cases h
    · cases h
      exact List.suffix_refl _
  | records =>
    refine (orderClause_stays rest).pointsInto h fun orderBy rest h => ?_
    refine (limitClause_stays rest).pointsInto h fun limit rest h => ?_
    simp only at h
    split at h
    · cases h
    · cases h
      exact latestClause_suffix rest

/-- A fault of a whole query shows at one of its tokens or where they end. -/
theorem query_pointsInto {fault : GrammarFault} (h : query ts = .error fault) :
    fault.PointsInto ts := by
  rw [query_eq] at h
  refine (verb_stays ts).pointsInto h fun kind rest h => ?_
  exact (entity_stays rest).pointsInto h fun e rest h => clauses_pointsInto h

end Parser

end NetQuery
