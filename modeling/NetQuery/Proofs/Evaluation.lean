import NetQuery.Proofs.Compiling
import NetQuery.Proofs.Formed

/-!
# The value of a chain of conditions

Given a truth value for each comparison, a chain of conditions has a value, but which one depends on
how `and` and `or` are put together. The query language goes from left to right: each condition is
joined to the result of everything before it. An engine lets `and` bind more tightly than `or`. The
two rules agree on a chain for all truth values if and only if no `and` comes after an `or` in it,
nor in any group inside it.
-/

namespace NetQuery

/-! ## Two rules -/

/-- A way to put the values of the operands of a chain together, from left to right. -/
structure Rule where
  /-- What is known of the operands so far. -/
  State : Type
  /-- What is known before the first operand. -/
  start : State
  /-- What is known after one more operand. -/
  step : Link → State → Bool → State
  /-- The value of the operands so far. -/
  value : State → Bool

/-- The value of two operands that a link joins. -/
def Link.apply : Link → Bool → Bool → Bool
  | .first, _, value => value
  | .and, before, value => before && value
  | .or, before, value => before || value

namespace Rule

/-- Each operand is joined to the result of everything before it. -/
def leftToRight : Rule where
  State := Bool
  start := false
  step := Link.apply
  value := id

/-- Conjunction binds more tightly than disjunction. There are the disjuncts that are complete, and
the one that a conjunction may still go on with. -/
def precedence : Rule where
  State := Bool × Bool
  start := (false, false)
  step
    | .first, _, value => (false, value)
    | .and, s, value => (s.1, s.2 && value)
    | .or, s, value => (s.1 || s.2, value)
  value s := s.1 || s.2

mutual

/-- The value of a condition whose first comparison has the given number. -/
def condition (r : Rule) (truth : Nat → Bool) : (number : Nat) → Condition → Bool
  | number, .compare _ _ => truth number
  | number, .group _ members => r.value (r.run truth number r.start members)

/-- What is known after a chain whose first comparison has the given number. -/
def run (r : Rule) (truth : Nat → Bool) : (number : Nat) → r.State → List Condition → r.State
  | _, s, [] => s
  | number, s, c :: cs =>
    r.run truth (number + c.comparisons.length) (r.step c.link s (r.condition truth number c)) cs

end

/-- The value of a chain whose comparisons are numbered from the left, starting with the given
number. -/
def eval (r : Rule) (truth : Nat → Bool) (number : Nat) (cs : List Condition) : Bool :=
  r.value (r.run truth number r.start cs)

end Rule

mutual

/-- In no chain of the condition does an `and` come after an `or`. -/
def Condition.Unmixed : Condition → Prop
  | .compare _ _ => True
  | .group _ members => ChainUnmixed members

/-- In the chain no `and` comes after an `or`, nor in any group of it. -/
def ChainUnmixed : List Condition → Prop
  | [] => True
  | c :: cs => c.Unmixed ∧ (c.link = .or → ∀ d ∈ cs, d.link ≠ .and) ∧ ChainUnmixed cs

end

theorem Condition.Formed.link_eq {link : Link} {c : Condition} (h : c.Formed link) :
    c.link = link := by
  cases h <;> rfl

theorem comparisonsOf_append (cs ds : List Condition) :
    comparisonsOf (cs ++ ds) = comparisonsOf cs ++ comparisonsOf ds := by
  induction cs with
  | nil => rfl
  | cons c cs ih => rw [List.cons_append, comparisonsOf, comparisonsOf, ih, List.append_assoc]

/-- Conditions that come after the first one of a chain. -/
def Follow (cs : List Condition) : Prop := ∀ c ∈ cs, c.link ≠ .first ∧ c.Formed c.link

theorem follow_of_chainFormed {link : Link} {cs : List Condition} (h : ChainFormed link cs)
    (hlink : link ≠ .first) : Follow cs := by
  induction cs generalizing link with
  | nil => simp [Follow]
  | cons c cs ih =>
    cases h with
    | last hc => simpa [Follow, hc.link_eq] using ⟨hlink, hc⟩
    | more hc hnext hcs => simpa [Follow, hc.link_eq] using ⟨⟨hlink, hc⟩, ih hcs hnext⟩

theorem chainFormed_of_follow {link : Link} {c : Condition} {cs : List Condition}
    (hc : c.Formed link) (hcs : Follow cs) : ChainFormed link (c :: cs) := by
  induction cs generalizing link c with
  | nil => exact .last hc
  | cons d cs ih =>
    obtain ⟨hlink, hd⟩ := hcs d List.mem_cons_self
    exact .more hc hlink (ih hd fun e he => hcs e (List.mem_cons_of_mem _ he))

theorem chainFormed_cons_iff {link : Link} {c : Condition} {cs : List Condition} :
    ChainFormed link (c :: cs) ↔ c.Formed link ∧ Follow cs := by
  refine ⟨fun h => ?_, fun h => chainFormed_of_follow h.1 h.2⟩
  cases h with
  | last hc => exact ⟨hc, by simp [Follow]⟩
  | more hc hnext hcs => exact ⟨hc, follow_of_chainFormed hcs hnext⟩

/-! ## Chains without a mix -/

namespace Rule

mutual

theorem condition_eq_of_unmixed (truth : Nat → Bool) {c : Condition} (h : c.Unmixed)
    (number : Nat) : leftToRight.condition truth number c = precedence.condition truth number c := by
  cases c with
  | compare link c => rfl
  | group link members =>
    rw [condition, condition]
    exact run_eq_of_unmixed truth h number rfl (Or.inr rfl)

/-- As long as an `and` may come, no disjunct is complete. -/
theorem run_eq_of_unmixed (truth : Nat → Bool) {cs : List Condition} (h : ChainUnmixed cs)
    (number : Nat) {s : leftToRight.State} {t : precedence.State}
    (hvalue : leftToRight.value s = precedence.value t)
    (hand : (∀ c ∈ cs, c.link ≠ .and) ∨ t.1 = false) :
    leftToRight.value (leftToRight.run truth number s cs) =
      precedence.value (precedence.run truth number t cs) := by
  cases cs with
  | nil => exact hvalue
  | cons c cs =>
    obtain ⟨hc, hor, hcs⟩ := h
    have hoperand := condition_eq_of_unmixed truth hc number
    rw [run, run, hoperand]
    generalize precedence.condition truth number c = value
    change s = (t.1 || t.2) at hvalue
    refine run_eq_of_unmixed truth hcs _ ?_ ?_
    -- The rules part only at an `and` after a complete disjunct, which `hand` excludes.
    · cases hlink : c.link with
      | first => rfl
      | or => simp [leftToRight, precedence, Link.apply, hvalue]
      | and =>
        have hopen : t.1 = false := hand.resolve_left fun hnone =>
          hnone c List.mem_cons_self hlink
        simp [leftToRight, precedence, Link.apply, hvalue, hopen]
    · cases hlink : c.link with
      | first => exact Or.inr rfl
      | or => exact Or.inl (hor hlink)
      | and => exact hand.imp_left fun hnone d hd => hnone d (List.mem_cons_of_mem _ hd)

end

/-! ## What the rules have in common -/

/-- What holds of conjunction and disjunction, however they are put together. -/
structure Lawful (r : Rule) : Prop where
  first : ∀ s b, r.value (r.step .first s b) = b
  and_true : ∀ s, r.value (r.step .and s true) = r.value s
  or_false : ∀ s, r.value (r.step .or s false) = r.value s
  false_and : ∀ s b, r.value s = false → r.value (r.step .and s b) = false
  true_or : ∀ s b, r.value s = true → r.value (r.step .or s b) = true
  false_or : ∀ s b, r.value s = false → r.value (r.step .or s b) = b

theorem lawful_leftToRight : leftToRight.Lawful where
  first _ _ := rfl
  and_true s := Bool.and_true s
  or_false s := Bool.or_false s
  false_and := by simp [leftToRight, Link.apply]
  true_or := by simp [leftToRight, Link.apply]
  false_or := by simp [leftToRight, Link.apply]

theorem lawful_precedence : precedence.Lawful where
  first _ _ := rfl
  and_true s := by simp [precedence]
  or_false s := by simp [precedence]
  false_and := by simp +contextual [precedence]
  true_or := by simp +contextual [precedence]
  false_or := by simp +contextual [precedence]

variable {r : Rule} {truth truth' : Nat → Bool}

theorem run_append (number : Nat) (s : r.State) (cs ds : List Condition) :
    r.run truth number s (cs ++ ds) =
      r.run truth (number + (comparisonsOf cs).length) (r.run truth number s cs) ds := by
  induction cs generalizing number s with
  | nil => rfl
  | cons c cs ih =>
    rw [List.cons_append, run, run, ih, comparisonsOf, List.length_append, Nat.add_assoc]

mutual

/-- A condition looks at the truth values of its own comparisons only. -/
theorem condition_congr {number : Nat} {c : Condition}
    (h : ∀ i, number ≤ i → i < number + c.comparisons.length → truth i = truth' i) :
    r.condition truth number c = r.condition truth' number c := by
  cases c with
  | compare link c => exact h number le_rfl (Nat.lt_succ_self number)
  | group link members => rw [condition, condition, run_congr r.start h]

theorem run_congr {number : Nat} (s : r.State) {cs : List Condition}
    (h : ∀ i, number ≤ i → i < number + (comparisonsOf cs).length → truth i = truth' i) :
    r.run truth number s cs = r.run truth' number s cs := by
  cases cs with
  | nil => rfl
  | cons c cs =>
    rw [comparisonsOf, List.length_append] at h
    have hc : r.condition truth number c = r.condition truth' number c :=
      condition_congr fun i hle hlt => h i hle (by omega)
    rw [run, run, hc]
    exact run_congr _ fun i hle hlt => h i (by omega) (by omega)

end

mutual

/-- A condition whose comparisons all have one truth value has that value. -/
theorem Lawful.condition_eq (hr : r.Lawful) {b : Bool} {number : Nat} {link : Link}
    {c : Condition} (hc : c.Formed link)
    (h : ∀ i, number ≤ i → i < number + c.comparisons.length → truth i = b) :
    r.condition truth number c = b := by
  cases c with
  | compare _ c => exact h number le_rfl (Nat.lt_succ_self number)
  | group _ members =>
    cases hc with
    | group hmembers =>
      rw [condition]
      cases members with
      | nil => cases hmembers
      | cons c cs =>
        obtain ⟨hc, hcs⟩ := chainFormed_cons_iff.1 hmembers
        rw [Condition.comparisons, comparisonsOf, List.length_append] at h
        have hfirst : r.condition truth number c = b :=
          hr.condition_eq hc fun i hle hlt => h i hle (by omega)
        rw [run, hc.link_eq, hfirst]
        exact hr.value_run hcs (hr.first r.start b) fun i hle hlt => h i (by omega) (by omega)

/-- A chain goes on with a value as long as its comparisons have it. -/
theorem Lawful.value_run (hr : r.Lawful) {b : Bool} {number : Nat} {s : r.State}
    {cs : List Condition} (hcs : Follow cs) (hs : r.value s = b)
    (h : ∀ i, number ≤ i → i < number + (comparisonsOf cs).length → truth i = b) :
    r.value (r.run truth number s cs) = b := by
  cases cs with
  | nil => exact hs
  | cons c cs =>
    obtain ⟨hlink, hc⟩ := hcs c List.mem_cons_self
    rw [comparisonsOf, List.length_append] at h
    have hoperand : r.condition truth number c = b :=
      hr.condition_eq hc fun i hle hlt => h i hle (by omega)
    have hstep : r.value (r.step c.link s b) = b := by
      cases hlinked : c.link with
      | first => exact absurd hlinked hlink
      | and =>
        cases b with
        | true => rw [hr.and_true, hs]
        | false => exact hr.false_and s false hs
      | or =>
        cases b with
        | true => exact hr.true_or s true hs
        | false => rw [hr.or_false, hs]
    rw [run, hoperand]
    exact hr.value_run (fun d hd => hcs d (List.mem_cons_of_mem _ hd)) hstep
      fun i hle hlt => h i (by omega) (by omega)

end

theorem Lawful.value_chain (hr : r.Lawful) {b : Bool} {number : Nat} {c : Condition}
    {cs : List Condition} (hc : c.Formed .first) (hcs : Follow cs)
    (h : ∀ i, number ≤ i → i < number + (comparisonsOf (c :: cs)).length → truth i = b) :
    r.eval truth number (c :: cs) = b := by
  have hgroup : Condition.Formed .first (.group .first (c :: cs)) :=
    .group (chainFormed_of_follow hc hcs)
  have hvalue := hr.condition_eq hgroup h
  rwa [condition] at hvalue

/-! ## Telling the rules apart -/

/-- The later conditions of a chain can be given truth values that leave its value as it is. -/
theorem exists_neutral {cs : List Condition} (hcs : Follow cs) (number : Nat)
    (truth : Nat → Bool) : ∃ truth', (∀ i < number, truth' i = truth i) ∧
      ∀ r : Rule, r.Lawful → ∀ s, r.value (r.run truth' number s cs) = r.value s := by
  induction cs generalizing number truth with
  | nil => exact ⟨truth, fun _ _ => rfl, fun _ _ _ => rfl⟩
  | cons c cs ih =>
    obtain ⟨hlink, hc⟩ := hcs c List.mem_cons_self
    -- A condition that is joined by `and` is made true, one that is joined by `or` false.
    obtain ⟨truth', hagree, hneutral⟩ := ih (fun d hd => hcs d (List.mem_cons_of_mem _ hd))
      (number + c.comparisons.length)
      (fun i => if i < number then truth i else decide (c.link = .and))
    refine ⟨truth', fun i hi => ?_, fun r hr s => ?_⟩
    · rw [hagree i (by omega), if_pos hi]
    · have hoperand : r.condition truth' number c = decide (c.link = .and) :=
        hr.condition_eq hc fun i hle hlt => by rw [hagree i hlt, if_neg (by omega)]
      rw [run, hneutral r hr, hoperand]
      cases hlinked : c.link with
      | first => exact absurd hlinked hlink
      | and => exact hr.and_true s
      | or => exact hr.or_false s

/-- A disjunct that is complete stays so. -/
theorem complete_run {cs : List Condition} (hcs : Follow cs) {number : Nat}
    {s : precedence.State} (hs : s.1 = true) : (precedence.run truth number s cs).1 = true := by
  induction cs generalizing number s with
  | nil => exact hs
  | cons c cs ih =>
    obtain ⟨hlink, -⟩ := hcs c List.mem_cons_self
    rw [run]
    refine ih (fun d hd => hcs d (List.mem_cons_of_mem _ hd)) ?_
    cases hlinked : c.link with
    | first => exact absurd hlinked hlink
    | and => exact hs
    | or => simp [precedence, hs]

/-- Without an `or` no disjunct is complete. -/
theorem incomplete_run {cs : List Condition} (hcs : ∀ c ∈ cs, c.link ≠ .or) {number : Nat}
    {s : precedence.State} (hs : s.1 = false) : (precedence.run truth number s cs).1 = false := by
  induction cs generalizing number s with
  | nil => exact hs
  | cons c cs ih =>
    have hlink := hcs c List.mem_cons_self
    rw [run]
    refine ih (fun d hd => hcs d (List.mem_cons_of_mem _ hd)) ?_
    cases hlinked : c.link with
    | first => rfl
    | and => exact hs
    | or => exact absurd hlinked hlink

theorem precedence_true_and {s : precedence.State} (hopen : s.1 = false)
    (hs : precedence.value s = true) (b : Bool) : precedence.value (precedence.step .and s b) = b := by
  have hcurrent : s.2 = true := by simpa [precedence, hopen] using hs
  simp [precedence, hopen, hcurrent]

/-- An `and` after an `or` tells the rules apart: let all comparisons before the `or` be true, and
all others false. -/
theorem exists_ne_of_or_and {c o a : Condition} {before mid after : List Condition}
    (hc : c.Formed .first) (hbefore : Follow before) (ho : o.link = .or) (ha : a.link = .and)
    (hrest : Follow (mid ++ a :: after)) (number : Nat) : ∃ truth,
      leftToRight.eval truth number (c :: (before ++ o :: (mid ++ a :: after))) ≠
        precedence.eval truth number (c :: (before ++ o :: (mid ++ a :: after))) := by
  obtain ⟨-, hformed⟩ := hrest a (by simp)
  have hafter : Follow after := fun d hd => hrest d (by simp [hd])
  let truth : Nat → Bool := fun i => decide (i < number + (comparisonsOf (c :: before)).length)
  have hleft : leftToRight.eval truth number (c :: (before ++ o :: (mid ++ a :: after))) = false := by
    have hsplit : c :: (before ++ o :: (mid ++ a :: after)) =
        (c :: before ++ o :: mid) ++ a :: after := by simp
    have hfalse : ∀ i, number + (comparisonsOf (c :: before ++ o :: mid)).length ≤ i →
        truth i = false := by
      intro i hi
      rw [comparisonsOf_append, List.length_append] at hi
      exact decide_eq_false (by omega)
    rw [hsplit, eval, run_append, run, ha,
      lawful_leftToRight.condition_eq hformed fun i hle _ => hfalse i hle]
    exact lawful_leftToRight.value_run hafter (Bool.and_false _)
      fun i hle _ => hfalse i (by omega)
  have hprecedence :
      precedence.eval truth number (c :: (before ++ o :: (mid ++ a :: after))) = true := by
    have hstate : precedence.eval truth number (c :: before) = true :=
      lawful_precedence.value_chain hc hbefore fun i _ hlt => decide_eq_true hlt
    have hsplit : c :: (before ++ o :: (mid ++ a :: after)) =
        (c :: before) ++ o :: (mid ++ a :: after) := rfl
    rw [hsplit, eval, run_append, run, ho]
    exact Bool.or_eq_true_iff.2 (Or.inl (complete_run hrest hstate))
  refine ⟨truth, ?_⟩
  rw [hleft, hprecedence]
  decide

/-- One operand can be made to decide the value of its chain, unless it is joined by `and` to a
disjunction. -/
theorem exists_focus {c g : Condition} {before after : List Condition} (hc : c.Formed .first)
    (hbefore : Follow before) (hg : g.link ≠ .first) (hafter : Follow after)
    (hor : g.link = .and → ∀ d ∈ before, d.link ≠ .or) (number : Nat) (truth : Nat → Bool) :
    ∃ truth', ∀ r : Rule, r = leftToRight ∨ r = precedence →
      r.eval truth' number (c :: (before ++ g :: after)) =
        r.condition truth (number + (comparisonsOf (c :: before)).length) g := by
  -- All that stands before the operand gets the value that its link leaves open.
  obtain ⟨truth', hagree, hneutral⟩ := exists_neutral hafter
    (number + (comparisonsOf (c :: before)).length + g.comparisons.length)
    (fun i => if i < number + (comparisonsOf (c :: before)).length then decide (g.link = .and)
      else truth i)
  refine ⟨truth', fun r hr => ?_⟩
  have hlawful : r.Lawful := by
    rcases hr with rfl | rfl
    · exact lawful_leftToRight
    · exact lawful_precedence
  have hstate : r.eval truth' number (c :: before) = decide (g.link = .and) :=
    hlawful.value_chain hc hbefore fun i _ hlt => by rw [hagree i (by omega), if_pos hlt]
  have hoperand : r.condition truth' (number + (comparisonsOf (c :: before)).length) g =
      r.condition truth (number + (comparisonsOf (c :: before)).length) g :=
    condition_congr fun i hle hlt => by rw [hagree i hlt, if_neg (by omega)]
  have hsplit : c :: (before ++ g :: after) = (c :: before) ++ g :: after := rfl
  rw [hsplit, eval, run_append, run, hneutral r hlawful, hoperand]
  generalize r.condition truth (number + (comparisonsOf (c :: before)).length) g = value
  cases hlink : g.link with
  | first => exact absurd hlink hg
  | or =>
    rw [hlink] at hstate
    exact hlawful.false_or _ value hstate
  | and =>
    rw [hlink] at hstate
    rcases hr with rfl | rfl
    · exact (congrArg (· && value) hstate).trans (Bool.true_and value)
    · have hnone : ∀ d ∈ c :: before, d.link ≠ .or := by
        intro d hd
        rcases List.mem_cons.1 hd with rfl | hd
        · rw [hc.link_eq]
          decide
        · exact hor hlink d hd
      exact precedence_true_and (incomplete_run hnone rfl) hstate value

mutual

theorem unmixed_of_condition_eq {link : Link} {c : Condition} (hc : c.Formed link) (number : Nat)
    (h : ∀ truth, leftToRight.condition truth number c = precedence.condition truth number c) :
    c.Unmixed := by
  cases c with
  | compare _ c => trivial
  | group _ members =>
    cases hc with
    | group hmembers =>
      cases members with
      | nil => cases hmembers
      | cons c cs =>
        obtain ⟨hc, hcs⟩ := chainFormed_cons_iff.1 hmembers
        have hagree : ∀ truth,
            leftToRight.eval truth number (c :: cs) = precedence.eval truth number (c :: cs) := by
          intro truth
          have htruth := h truth
          rwa [condition, condition] at htruth
        rw [Condition.Unmixed, ChainUnmixed]
        refine ⟨unmixed_of_condition_eq hc number fun truth => ?_, fun hor => ?_,
          chainUnmixed_of_eval_eq hc (fun _ h => absurd h List.not_mem_nil) hcs hagree⟩
        · obtain ⟨truth', hsame, hneutral⟩ :=
            exists_neutral hcs (number + c.comparisons.length) truth
          have hfirst : ∀ r : Rule, r.Lawful →
              r.eval truth' number (c :: cs) = r.condition truth number c := by
            intro r hr
            rw [eval, run, hneutral r hr, hc.link_eq, hr.first]
            exact condition_congr fun i _ hlt => hsame i hlt
          rw [← hfirst _ lawful_leftToRight, ← hfirst _ lawful_precedence]
          exact hagree truth'
        · rw [hc.link_eq] at hor
          cases hor

theorem chainUnmixed_of_eval_eq {c : Condition} {before cs : List Condition}
    (hc : c.Formed .first) (hbefore : Follow before) (hcs : Follow cs) {number : Nat}
    (h : ∀ truth, leftToRight.eval truth number (c :: (before ++ cs)) =
      precedence.eval truth number (c :: (before ++ cs))) : ChainUnmixed cs := by
  cases cs with
  | nil => trivial
  | cons g after =>
    obtain ⟨hlink, hg⟩ := hcs g List.mem_cons_self
    have hafter : Follow after := fun d hd => hcs d (List.mem_cons_of_mem _ hd)
    have hbefore' : Follow (before ++ [g]) := by
      intro d hd
      rcases List.mem_append.1 hd with hd | hd
      · exact hbefore d hd
      · rw [List.mem_singleton.1 hd]
        exact ⟨hlink, hg⟩
    rw [ChainUnmixed]
    -- Conditions move from `cs` to `before`; the whole chain, on which the rules agree, stays.
    refine ⟨unmixed_of_condition_eq hg (number + (comparisonsOf (c :: before)).length)
      fun truth => ?_, fun hor d hd hand => ?_,
      chainUnmixed_of_eval_eq hc hbefore' hafter (by simpa using h)⟩
    · have hor : g.link = .and → ∀ d ∈ before, d.link ≠ .or := by
        intro hand o ho hlinked
        obtain ⟨first, mid, rfl⟩ := List.append_of_mem ho
        have hfirst : Follow first := fun d hd => hbefore d (by simp [hd])
        have hrest : Follow (mid ++ g :: after) := by
          intro d hd
          rcases List.mem_append.1 hd with hd | hd
          · exact hbefore d (by simp [hd])
          · exact hcs d hd
        obtain ⟨truth, hne⟩ := exists_ne_of_or_and hc hfirst hlinked hand hrest number
        exact hne (by simpa using h truth)
      obtain ⟨truth', hfocus⟩ := exists_focus hc hbefore hlink hafter hor number truth
      rw [← hfocus _ (Or.inl rfl), ← hfocus _ (Or.inr rfl)]
      exact h truth'
    · obtain ⟨mid, rest, rfl⟩ := List.append_of_mem hd
      obtain ⟨truth, hne⟩ := exists_ne_of_or_and hc hbefore hor hand hafter number
      exact hne (h truth)

end

/-- The two rules agree on a chain for all truth values if and only if it is unmixed. -/
theorem eval_eq_iff_unmixed {cs : List Condition} (hcs : ChainFormed .first cs) (number : Nat) :
    (∀ truth, leftToRight.eval truth number cs = precedence.eval truth number cs) ↔
      ChainUnmixed cs := by
  refine ⟨fun h => ?_, fun h truth => run_eq_of_unmixed truth h number rfl (Or.inr rfl)⟩
  have hgroup : Condition.Formed .first (.group .first cs) := .group hcs
  refine unmixed_of_condition_eq hgroup number fun truth => ?_
  rw [condition, condition]
  exact h truth

end Rule

end NetQuery
