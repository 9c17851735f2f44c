import Mathlib.Tactic.FinCases
import NetQuery.Proofs.Grammar

/-!
# The parser accepts exactly the grammar

Soundness follows the parser: whatever a rule reads, the tokens that it took are derived by the rule
of the grammar with the same name. Completeness follows the derivation: tokens that are derived are
read, provided that what comes after them cannot be taken for more of the same. One token is enough
to tell, and each lemma names the tokens that must not come next.
-/

namespace NetQuery.Parser

/-- The tokens without their places. -/
abbrev kinds (ts : List Token) : List TokenKind := ts.map Token.kind

/-- The tokens start with a run of which `G` holds, and `rest` follows. -/
def Starts (G : List TokenKind → Prop) (ts rest : List Token) : Prop :=
  ∃ us, ts = us ++ rest ∧ G (kinds us)

/-- The rule reads `a` and leaves `rest`. -/
def Reads {α : Type} (rule : Rule α) (ts : List Token) (a : α) (rest : List Token) : Prop :=
  ∃ h, rule ts = .ok ⟨a, rest, h⟩

theorem Reads.of_eq {α : Type} {rule : Rule α} {ts : List Token} {r : Parsed α ts}
    (h : rule ts = .ok r) : Reads rule ts r.value r.rest :=
  ⟨r.shorter, h⟩

/-- That a rule takes tokens need not be proved again where it is run. -/
theorem reads_iff {α : Type} {rule : Rule α} {ts rest : List Token} {a : α} :
    Reads rule ts a rest ↔ (rule ts).map (fun r => (r.value, r.rest)) = .ok (a, rest) := by
  unfold Reads
  cases rule ts with
  | error fault => simp [Except.map]
  | ok r =>
    obtain ⟨a', rest', hlt⟩ := r
    constructor
    · rintro ⟨_, h⟩
      cases h
      rfl
    · intro h
      cases h
      exact ⟨hlt, rfl⟩

/-! ## Single tokens -/

/-- The parser and the grammar agree on which tokens are literals. -/
theorem literal?_eq_some_iff {t : TokenKind} {v : Value} :
    literal? t = some v ↔ Grammar.Literal t v := by
  constructor
  · intro h
    unfold literal? at h
    split at h <;> cases h <;> constructor
  · intro h
    cases h <;> rfl

/-- The parser and the grammar agree on which tokens join conditions. -/
theorem link?_eq_some_iff {t : TokenKind} {link : Link} :
    link? t = some link ↔ Grammar.Connective t link := by
  constructor
  · intro h
    unfold link? at h
    split at h <;> cases h <;> constructor
  · intro h
    cases h <;> rfl

/-- A value is one token. -/
theorem reads_value_iff {ts rest : List Token} {v : Value} :
    Reads value ts v rest ↔ ∃ t, ts = t :: rest ∧ Grammar.Literal t.kind v := by
  constructor
  · rintro ⟨hlt, h⟩
    unfold value at h
    split at h
    · cases h
    · split at h
      · cases h
        exact ⟨_, rfl, literal?_eq_some_iff.1 ‹_›⟩
      · cases h
  · rintro ⟨t, rfl, ht⟩
    simp [reads_iff, value, literal?_eq_some_iff.2 ht, Except.map]

/-- A keyword is one token. -/
theorem reads_keyword_iff {k : Keyword} {ts rest : List Token} {u : Unit} :
    Reads (keyword k) ts u rest ↔ ∃ p, ts = ⟨.keyword k, p⟩ :: rest := by
  constructor
  · rintro ⟨hlt, h⟩
    unfold keyword at h
    split at h
    · cases h
    · split at h
      · cases h
        subst_vars
        exact ⟨_, rfl⟩
      · cases h
    · cases h
  · rintro ⟨p, rfl⟩
    simp [reads_iff, keyword, Except.map]

/-! ## Soundness -/

/-- What is read as the tail of a list is values and a closing parenthesis. -/
theorem listTail_sound {ts rest : List Token} {vs : List Value} (h : Reads listTail ts vs rest) :
    ∃ us p, ts = us ++ ⟨.closeParen, p⟩ :: rest ∧ Grammar.Values (kinds us) vs := by
  obtain ⟨hlt, h⟩ := h
  fun_induction listTail ts generalizing vs rest with
  | case4 t v hv p ts r hr ih =>
    cases h
    obtain ⟨us, q, hts, hvs⟩ := ih r.shorter hr
    refine ⟨t :: ⟨.comma, p⟩ :: us, q, ?_, .more (literal?_eq_some_iff.1 hv) hvs⟩
    simp [hts]
  | case5 t v hv p ts =>
    cases h
    exact ⟨[t], p, rfl, .last (literal?_eq_some_iff.1 hv)⟩
  | _ => cases h

/-- What is read as the arguments of a call is names and a closing parenthesis. -/
theorem argumentTail_sound {ts rest : List Token} {args : List String}
    (h : Reads argumentTail ts args rest) :
    ∃ us p, ts = us ++ ⟨.closeParen, p⟩ :: rest ∧ Grammar.Arguments (kinds us) args := by
  obtain ⟨hlt, h⟩ := h
  fun_induction argumentTail ts generalizing args rest with
  | case2 arg p q ts r hr ih =>
    cases h
    obtain ⟨us, p', hts, hargs⟩ := ih r.shorter hr
    refine ⟨⟨.name arg, p⟩ :: ⟨.comma, q⟩ :: us, p', ?_, .more arg hargs⟩
    simp [hts]
  | case3 arg p q ts =>
    cases h
    exact ⟨[⟨.name arg, p⟩], q, rfl, .last arg⟩
  | _ => cases h

theorem field_sound {ts rest : List Token} {f : String} (h : Reads field ts f rest) :
    Starts (Grammar.Field · f) ts rest := by
  obtain ⟨hlt, h⟩ := h
  unfold field at h
  split at h
  · next name p q ts =>
    split at h
    · cases h
    · next r hr =>
      cases h
      obtain ⟨us, p', hts, hargs⟩ := argumentTail_sound (Reads.of_eq hr)
      refine ⟨⟨.name name, p⟩ :: ⟨.openParen, q⟩ :: (us ++ [⟨.closeParen, p'⟩]), ?_, ?_⟩
      · simp [hts]
      · simpa using Grammar.Field.call name hargs
  · cases h
    exact ⟨[_], rfl, .column _⟩
  · cases h

theorem valueList_sound {ts rest : List Token} {vs : List Value} (h : Reads valueList ts vs rest) :
    ∃ us p q, ts = ⟨.openParen, p⟩ :: (us ++ ⟨.closeParen, q⟩ :: rest) ∧
      Grammar.Values (kinds us) vs ∧ vs.length ≤ 200 := by
  obtain ⟨hlt, h⟩ := h
  unfold valueList at h
  split at h
  · next p ts =>
    split at h
    · cases h
    · next r hr =>
      split at h
      · cases h
      · next hlength =>
        cases h
        obtain ⟨us, q, hts, hvs⟩ := listTail_sound (Reads.of_eq hr)
        exact ⟨us, p, q, by simp [hts], hvs, Nat.le_of_not_lt hlength⟩
  · cases h

/-- A range is two values with `AND` between them. -/
theorem reads_range_iff {ts rest : List Token} {v : Value} :
    Reads range ts v rest ↔ ∃ t p u low high, ts = t :: ⟨.keyword .and, p⟩ :: u :: rest ∧
      v = .list [low, high] ∧ Grammar.Literal t.kind low ∧ Grammar.Literal u.kind high := by
  constructor
  · rintro ⟨hlt, h⟩
    unfold range at h
    split at h
    · cases h
    · next low hlow =>
      split at h
      · cases h
      · next link hlink =>
        split at h
        · cases h
        · next high hhigh =>
          cases h
          obtain ⟨t, ht, htv⟩ := reads_value_iff.1 (Reads.of_eq hlow)
          obtain ⟨p, hp⟩ := reads_keyword_iff.1 (Reads.of_eq hlink)
          obtain ⟨u, hu, huv⟩ := reads_value_iff.1 (Reads.of_eq hhigh)
          have hts := ht.trans (congrArg _ (hp.trans (congrArg _ hu)))
          exact ⟨t, p, u, low.value, high.value, hts, rfl, htv, huv⟩
  · rintro ⟨t, p, u, low, high, rfl, rfl, hlow, hhigh⟩
    simp [reads_iff, range, value, keyword, literal?_eq_some_iff.2 hlow,
      literal?_eq_some_iff.2 hhigh, Except.map]

/-- A null check after `IS` is `NULL` or `NOT NULL`. -/
theorem reads_nullCheck_iff {ts rest : List Token} {op : Operator} :
    Reads nullCheck ts op rest ↔
      (∃ p, ts = ⟨.keyword .null, p⟩ :: rest ∧ op = .isNull) ∨
      (∃ p q, ts = ⟨.keyword .not, p⟩ :: ⟨.keyword .null, q⟩ :: rest ∧ op = .isNotNull) := by
  constructor
  · rintro ⟨hlt, h⟩
    unfold nullCheck at h
    split at h
    · split at h
      · cases h
      · next r hr =>
        cases h
        obtain ⟨q, hq⟩ := reads_keyword_iff.1 (Reads.of_eq hr)
        exact Or.inr ⟨_, q, congrArg _ hq, rfl⟩
    · split at h
      · cases h
      · next r hr =>
        cases h
        obtain ⟨q, hq⟩ := reads_keyword_iff.1 (Reads.of_eq hr)
        exact Or.inl ⟨q, hq, rfl⟩
  · rintro (⟨p, rfl, rfl⟩ | ⟨p, q, rfl, rfl⟩)
    · simp [reads_iff, nullCheck, keyword, Except.map]
    · simp [reads_iff, nullCheck, keyword, Except.map]

/-- An operator with its operand is derived as the grammar has it. -/
theorem operation_sound {ts rest : List Token} {op : Operator} {v : Value}
    (h : Reads operation ts (op, v) rest) : Starts (Grammar.Operation · op v) ts rest := by
  obtain ⟨hlt, h⟩ := h
  unfold operation at h
  split at h
  · -- a comparison sign
    split at h
    · cases h
    · next r hr =>
      cases h
      obtain ⟨t, ht, hv⟩ := reads_value_iff.1 (Reads.of_eq hr)
      exact ⟨[_, t], congrArg _ ht, .compare _ hv⟩
  · -- `LIKE`
    split at h
    · cases h
    · next r hr =>
      cases h
      obtain ⟨t, ht, hv⟩ := reads_value_iff.1 (Reads.of_eq hr)
      exact ⟨[_, t], congrArg _ ht, .like hv⟩
  · -- `CONTAINS` and a text
    cases h
    exact ⟨[_, _], rfl, .contains _⟩
  · cases h
  · -- `IN`
    next i ts =>
    split at h
    · cases h
    · next r hr =>
      cases h
      obtain ⟨us, p, q, hts, hvs, hlength⟩ := valueList_sound (Reads.of_eq hr)
      refine ⟨⟨.keyword .in, i⟩ :: ⟨.openParen, p⟩ :: (us ++ [⟨.closeParen, q⟩]), ?_, ?_⟩
      · simpa using hts
      · simpa using Grammar.Operation.isIn hvs hlength
  · -- `BETWEEN`
    split at h
    · cases h
    · next r hr =>
      obtain ⟨t, p, u, low, high, hts, hv, hlow, hhigh⟩ := reads_range_iff.1 (Reads.of_eq hr)
      cases h
      refine ⟨[_, t, ⟨.keyword .and, p⟩, u], congrArg _ hts, ?_⟩
      rw [hv]
      exact .between hlow hhigh
  · -- `IS`
    split at h
    · cases h
    · next r hr =>
      have hcheck := reads_nullCheck_iff.1 (Reads.of_eq hr)
      cases h
      rcases hcheck with ⟨p, hts, hop⟩ | ⟨p, q, hts, hop⟩
      · refine ⟨[_, ⟨.keyword .null, p⟩], congrArg _ hts, ?_⟩
        rw [hop]
        exact .isNull
      · refine ⟨[_, ⟨.keyword .not, p⟩, ⟨.keyword .null, q⟩], congrArg _ hts, ?_⟩
        rw [hop]
        exact .isNotNull
  · cases h

theorem comparison_sound {ts rest : List Token} {c : Comparison} (h : Reads comparison ts c rest) :
    ∃ us vs, ts = us ++ (vs ++ rest) ∧ Grammar.Field (kinds us) c.field ∧
      Grammar.Operation (kinds vs) c.operator c.value := by
  obtain ⟨hlt, h⟩ := h
  unfold comparison at h
  split at h
  · cases h
  · next f hf =>
    split at h
    · cases h
    · next r hr =>
      cases h
      obtain ⟨us, hus, hfield⟩ := field_sound (Reads.of_eq hf)
      obtain ⟨vs, hvs, hop⟩ := operation_sound (Reads.of_eq hr)
      exact ⟨us, vs, hus.trans (congrArg _ hvs), hfield, hop⟩

/-- The link that comes next is one token. -/
theorem nextLink_sound {ts : List Token} {r : Parsed Link ts} (h : nextLink ts = some r) :
    ∃ t, ts = t :: r.rest ∧ Grammar.Connective t.kind r.value := by
  unfold nextLink at h
  split at h
  · cases h
  · next t ts =>
    obtain ⟨link, hlink, hr⟩ := Option.map_eq_some_iff.1 h
    cases hr
    exact ⟨t, rfl, link?_eq_some_iff.1 hlink⟩

/-- A chain is derived if each of its conditions is. It stops where no link follows. -/
theorem chain_sound {condition : Link → Rule Condition} {room : Nat}
    (hcondition : ∀ link ts c rest, Reads (condition link) ts c rest →
      Starts (Grammar.Entry link · c) ts rest ∧ c.nesting ≤ room)
    {link : Link} {ts rest : List Token} {cs : List Condition}
    (h : Reads (chain condition link) ts cs rest) :
    Starts (Grammar.Chain link · cs) ts rest ∧ nestingOf cs ≤ room := by
  obtain ⟨hlt, h⟩ := h
  fun_induction chain condition link ts generalizing cs rest with
  | case2 link ts c hc hnext =>
    cases h
    obtain ⟨⟨us, hus, hentry⟩, hroom⟩ := hcondition _ _ _ _ (Reads.of_eq hc)
    exact ⟨⟨us, hus, .last hentry⟩, by simpa [nestingOf] using hroom⟩
  | case4 link ts c hc next hnext r hr ih =>
    cases h
    obtain ⟨⟨us, hus, hentry⟩, hroom⟩ := hcondition _ _ _ _ (Reads.of_eq hc)
    obtain ⟨t, ht, hlink⟩ := nextLink_sound hnext
    obtain ⟨⟨vs, hvs, hchain⟩, hrooms⟩ := ih r.shorter hr
    refine ⟨⟨us ++ t :: vs, ?_, ?_⟩, ?_⟩
    · have hrest := ht.trans (congrArg _ hvs)
      simpa using hus.trans (congrArg _ hrest)
    · simpa using Grammar.Chain.more hentry hlink hchain
    · exact Nat.max_le.2 ⟨hroom, hrooms⟩
  | _ => cases h

theorem groupEnd_sound {ts rest : List Token} {u : Unit} (h : Reads groupEnd ts u rest) :
    ∃ p, ts = ⟨.closeParen, p⟩ :: rest := by
  obtain ⟨hlt, h⟩ := h
  unfold groupEnd at h
  split at h
  · cases h
    exact ⟨_, rfl⟩
  · cases h

theorem comparisonCondition_sound {link : Link} {ts rest : List Token} {c : Condition}
    (h : Reads (comparisonCondition link) ts c rest) :
    Starts (Grammar.Entry link · c) ts rest ∧ c.nesting = 0 := by
  obtain ⟨hlt, h⟩ := h
  unfold comparisonCondition at h
  split at h
  · cases h
  · next r hr =>
    cases h
    obtain ⟨us, vs, hts, hfield, hop⟩ := comparison_sound (Reads.of_eq hr)
    refine ⟨⟨us ++ vs, by simpa using hts, ?_⟩, by simp [Condition.nesting]⟩
    simpa using Grammar.Entry.compare hfield hop

/-- A condition is a group, which takes up room for one, or a comparison, which does not start with
a parenthesis. -/
theorem reads_condition_iff {room : Nat} {link : Link} {ts rest : List Token} {c : Condition} :
    Reads (condition room link) ts c rest ↔
      (∃ left p q us vs members, room = left + 1 ∧ ts = ⟨.openParen, p⟩ :: us ∧
        Reads (chain (condition left) .first) us members vs ∧
        vs = ⟨.closeParen, q⟩ :: rest ∧ c = .group link members) ∨
      ((∀ p us, ts ≠ ⟨.openParen, p⟩ :: us) ∧ Reads (comparisonCondition link) ts c rest) := by
  by_cases hopen : ∃ p us, ts = ⟨.openParen, p⟩ :: us
  · obtain ⟨p, us, rfl⟩ := hopen
    cases room with
    | zero =>
      constructor
      · rintro ⟨_, h⟩
        cases h
      · rintro (⟨left, _, _, _, _, _, hroom, _⟩ | ⟨hne, _⟩)
        · cases hroom
        · exact absurd rfl (hne p us)
    | succ left =>
      constructor
      · rintro ⟨hlt, h⟩
        rw [condition] at h
        split at h
        · cases h
        · next members hmembers =>
          split at h
          · cases h
          · next close hclose =>
            cases h
            obtain ⟨q, hq⟩ := groupEnd_sound (Reads.of_eq hclose)
            exact Or.inl ⟨left, p, q, us, _, _, rfl, rfl, Reads.of_eq hmembers, hq, rfl⟩
      · rintro (⟨left', p', q, us', vs, members, hroom, hts, ⟨hlt, h⟩, hvs, rfl⟩ | ⟨hne, _⟩)
        · cases hroom
          cases hts
          subst hvs
          refine ⟨by simp only [List.length_cons] at hlt ⊢; omega, ?_⟩
          rw [condition, h]
          rfl
        · exact absurd rfl (hne p us)
  · have hne : ∀ p us, ts ≠ ⟨.openParen, p⟩ :: us := fun p us h => hopen ⟨p, us, h⟩
    have heq : condition room link ts = comparisonCondition link ts :=
      condition.eq_3 room link ts (fun p us _ => hne p us) (fun _ p us _ => hne p us)
    constructor
    · rintro ⟨hlt, h⟩
      exact Or.inr ⟨hne, hlt, heq ▸ h⟩
    · rintro (⟨_, p, _, us, _, _, _, hts, _⟩ | ⟨_, hlt, h⟩)
      · exact absurd hts (hne p us)
      · exact ⟨hlt, heq.trans h⟩

/-- A condition that is read with room for `room` groups nests at most that deep. The induction is
on the room, which the parser gives up by one for each group that it opens. -/
theorem condition_sound {room : Nat} : ∀ {link : Link} {ts rest : List Token} {c : Condition},
    Reads (condition room link) ts c rest →
      Starts (Grammar.Entry link · c) ts rest ∧ c.nesting ≤ room := by
  induction room with
  | zero =>
    intro link ts rest c h
    rcases reads_condition_iff.1 h with ⟨left, _, _, _, _, _, hroom, _⟩ | ⟨_, hcompare⟩
    · cases hroom
    · obtain ⟨hentry, hnesting⟩ := comparisonCondition_sound hcompare
      exact ⟨hentry, Nat.le_of_eq hnesting⟩
  | succ room ih =>
    intro link ts rest c h
    rcases reads_condition_iff.1 h with
      ⟨left, p, q, us, vs, members, hroom, rfl, hchain, rfl, rfl⟩ | ⟨_, hcompare⟩
    · cases hroom
      obtain ⟨⟨ws, rfl, hmembers⟩, hnesting⟩ := chain_sound (fun _ _ _ _ => ih) hchain
      refine ⟨⟨⟨.openParen, p⟩ :: (ws ++ [⟨.closeParen, q⟩]), by simp, ?_⟩, ?_⟩
      · simpa using Grammar.Entry.group hmembers
      · simpa [Condition.nesting] using hnesting
    · obtain ⟨hentry, hnesting⟩ := comparisonCondition_sound hcompare
      exact ⟨hentry, by omega⟩

/-- A key of an ordering is a field and, at most, one word for its direction. -/
theorem key_sound {ts rest : List Token} {f : String} (h : Reads field ts f rest) :
    Starts (Grammar.Key · ⟨f, (direction rest).1⟩) ts (direction rest).2 := by
  obtain ⟨us, rfl, hfield⟩ := field_sound h
  unfold direction
  split
  · next p ts =>
    refine ⟨us ++ [⟨.keyword .desc, p⟩], by simp, ?_⟩
    simpa using Grammar.Key.descending hfield
  · next p ts =>
    refine ⟨us ++ [⟨.keyword .asc, p⟩], by simp, ?_⟩
    simpa using Grammar.Key.ascending hfield
  · exact ⟨us, rfl, .plain hfield⟩

theorem nextKey_sound {ts : List Token} {r : Parsed Unit ts} (h : nextKey ts = some r) :
    ∃ p, ts = ⟨.comma, p⟩ :: r.rest := by
  unfold nextKey at h
  split at h
  · cases h
    exact ⟨_, rfl⟩
  · cases h

theorem orderItems_sound {ts rest : List Token} {items : List OrderItem}
    (h : Reads orderItems ts items rest) : Starts (Grammar.Keys · items) ts rest := by
  obtain ⟨hlt, h⟩ := h
  fun_induction orderItems ts generalizing items rest with
  | case2 ts f hf d hshorter =>
    cases h
    obtain ⟨us, hus, hkey⟩ := key_sound (Reads.of_eq hf)
    exact ⟨us, hus, .last hkey⟩
  | case4 ts f hf d hshorter comma hcomma r hr =>
    rename_i ih
    cases h
    obtain ⟨us, hus, hkey⟩ := key_sound (Reads.of_eq hf)
    obtain ⟨p, hp⟩ := nextKey_sound hcomma
    obtain ⟨vs, hvs, hkeys⟩ := ih r.shorter hr
    refine ⟨us ++ ⟨.comma, p⟩ :: vs, ?_, ?_⟩
    · have hrest := hp.trans (congrArg _ hvs)
      simpa using hus.trans (congrArg _ hrest)
    · simpa using Grammar.Keys.more hkey hkeys
  | _ => cases h

theorem whereClause_sound {ts rest : List Token} {cs : List Condition}
    (h : whereClause ts = .ok (cs, rest)) :
    Starts (Grammar.Where · cs) ts rest ∧ nestingOf cs ≤ 16 := by
  unfold whereClause at h
  split at h
  · split at h
    · cases h
    · next r hr =>
      cases h
      obtain ⟨⟨us, hus, hchain⟩, hnesting⟩ :=
        chain_sound (fun _ _ _ _ => condition_sound) (Reads.of_eq hr)
      exact ⟨⟨_ :: us, congrArg _ hus, .present hchain⟩, hnesting⟩
  · cases h
    exact ⟨⟨[], rfl, .absent⟩, Nat.zero_le _⟩

theorem orderClause_sound {ts rest : List Token} {items : List OrderItem}
    (h : orderClause ts = .ok (items, rest)) : Starts (Grammar.Order · items) ts rest := by
  unfold orderClause at h
  split at h
  · split at h
    · cases h
    · next r hr =>
      split at h
      · cases h
      · next keys hkeys =>
        cases h
        obtain ⟨p, hp⟩ := reads_keyword_iff.1 (Reads.of_eq hr)
        obtain ⟨us, hus, hitems⟩ := orderItems_sound (Reads.of_eq hkeys)
        exact ⟨_ :: ⟨.keyword .by, p⟩ :: us, congrArg _ (hp.trans (congrArg _ hus)),
          .present hitems⟩
  · cases h
    exact ⟨[], rfl, .absent⟩

theorem limitClause_sound {ts rest : List Token} {n : Option Nat}
    (h : limitClause ts = .ok (n, rest)) : Starts (Grammar.Limit · n) ts rest := by
  unfold limitClause limit at h
  split at h
  · split at h
    · cases h
    · next r hr =>
      split at hr
      · split at hr
        · next hn =>
          cases hr
          cases h
          exact ⟨[_, _], rfl, .present hn⟩
        · cases hr
      · cases hr
  · cases h
    exact ⟨[], rfl, .absent⟩

theorem latestClause_sound (ts : List Token) :
    Starts (Grammar.Latest · (latestClause ts).1) ts (latestClause ts).2 := by
  unfold latestClause
  split
  · exact ⟨[_], rfl, .present⟩
  · exact ⟨[], rfl, .absent⟩

theorem verb_sound {ts rest : List Token} {kind : QueryKind} (h : Reads verb ts kind rest) :
    ∃ k p, ts = ⟨.keyword k, p⟩ :: rest ∧
      (kind = .records ∧ Grammar.Show k ∨ kind = .count ∧ k = .count) := by
  obtain ⟨hlt, h⟩ := h
  unfold verb at h
  split at h
  · cases h
    exact ⟨_, _, rfl, Or.inl ⟨rfl, .show⟩⟩
  · cases h
    exact ⟨_, _, rfl, Or.inl ⟨rfl, .find⟩⟩
  · cases h
    exact ⟨_, _, rfl, Or.inr ⟨rfl, rfl⟩⟩
  · cases h

theorem entity_sound {ts rest : List Token} {e : Entity} (h : Reads entity ts e rest) :
    ∃ name p, ts = ⟨.name name, p⟩ :: rest ∧ Entity.ofName? name = some e := by
  obtain ⟨hlt, h⟩ := h
  unfold entity at h
  split at h
  · split at h
    · next hname =>
      cases h
      exact ⟨_, _, rfl, hname⟩
    · cases h
  · cases h

/-- The clauses of a count are its conditions. -/
theorem clauses_count_sound {e : Entity} {ts : List Token} {q : Query}
    (h : clauses .count e ts = .ok q) :
    ∃ cs, Grammar.Where (kinds ts) cs ∧ nestingOf cs ≤ 16 ∧
      q = ⟨.count, e, cs, [], none, false, none⟩ := by
  unfold clauses at h
  cases hwhere : whereClause ts with
  | error fault => simp [hwhere, bind, Except.bind] at h
  | ok result =>
    obtain ⟨cs, rest⟩ := result
    obtain ⟨⟨us, rfl, hcs⟩, hnesting⟩ := whereClause_sound hwhere
    simp only [hwhere, bind, Except.bind] at h
    split at h
    · next hend =>
      cases h
      obtain rfl := List.isEmpty_iff.1 hend
      exact ⟨cs, by simpa using hcs, hnesting, rfl⟩
    · cases h

/-- The clauses of records stand in their order, up to the end. -/
theorem clauses_records_sound {e : Entity} {ts : List Token} {q : Query}
    (h : clauses .records e ts = .ok q) :
    ∃ ws os ls ks cs items n latest, kinds ts = ws ++ (os ++ (ls ++ ks)) ∧ Grammar.Where ws cs ∧
      Grammar.Order os items ∧ Grammar.Limit ls n ∧ Grammar.Latest ks latest ∧
      nestingOf cs ≤ 16 ∧ q = ⟨.records, e, cs, items, n, latest, none⟩ := by
  unfold clauses at h
  cases hwhere : whereClause ts with
  | error fault => simp [hwhere, bind, Except.bind] at h
  | ok result =>
    obtain ⟨cs, rest⟩ := result
    obtain ⟨⟨us, rfl, hcs⟩, hnesting⟩ := whereClause_sound hwhere
    simp only [hwhere, bind, Except.bind] at h
    cases horder : orderClause rest with
    | error fault => simp [horder] at h
    | ok result =>
      obtain ⟨items, rest'⟩ := result
      obtain ⟨vs, rfl, hitems⟩ := orderClause_sound horder
      simp only [horder] at h
      cases hlimit : limitClause rest' with
      | error fault => simp [hlimit] at h
      | ok result =>
        obtain ⟨n, rest''⟩ := result
        obtain ⟨ls, rfl, hn⟩ := limitClause_sound hlimit
        obtain ⟨ks, hks, hlatest⟩ := latestClause_sound rest''
        simp only [hlimit] at h
        split at h
        · next hend =>
          cases h
          rw [List.isEmpty_iff.1 hend, List.append_nil] at hks
          subst hks
          exact ⟨kinds us, kinds vs, kinds ls, kinds rest'', cs, items, n, _, by simp, hcs, hitems,
            hn, hlatest, hnesting, rfl⟩
        · cases h

/-- Whatever the parser accepts is derived by the grammar, with groups at most 16 deep. -/
theorem query_sound {ts : List Token} {q : Query} (h : query ts = .ok q) :
    Grammar.Whole (kinds ts) q ∧ nestingOf q.conditions ≤ 16 := by
  unfold query at h
  cases hverb : verb ts with
  | error fault => simp [hverb, bind, Except.bind] at h
  | ok kind =>
    simp only [hverb, bind, Except.bind] at h
    cases hentity : entity kind.rest with
    | error fault => simp [hentity] at h
    | ok e =>
      simp only [hentity] at h
      obtain ⟨k, p, hts, hkind⟩ := verb_sound (Reads.of_eq hverb)
      obtain ⟨name, p', hrest, hname⟩ := entity_sound (Reads.of_eq hentity)
      rw [hts.trans (congrArg _ hrest)]
      rcases hkind with ⟨hkind, hshow⟩ | ⟨hkind, rfl⟩
      · rw [hkind] at h
        obtain ⟨ws, os, ls, ks, cs, items, n, latest, hparts, hcs, hitems, hn, hlatest, hnesting,
          rfl⟩ := clauses_records_sound h
        refine ⟨?_, hnesting⟩
        simpa [kinds, hparts] using Grammar.Whole.records hshow hname hcs hitems hn hlatest
      · rw [hkind] at h
        obtain ⟨cs, hcs, hnesting, rfl⟩ := clauses_count_sound h
        exact ⟨.count hname hcs, hnesting⟩

/-! ## Completeness -/

theorem kinds_eq_cons {us : List Token} {k : TokenKind} {ks : List TokenKind}
    (h : kinds us = k :: ks) : ∃ p vs, us = ⟨k, p⟩ :: vs ∧ kinds vs = ks := by
  obtain ⟨t, vs, rfl, rfl, hvs⟩ := List.map_eq_cons_iff.1 h
  exact ⟨t.position, vs, rfl, hvs⟩

theorem kinds_eq_singleton {us : List Token} {k : TokenKind} (h : kinds us = [k]) :
    ∃ p, us = [⟨k, p⟩] := by
  obtain ⟨p, vs, rfl, hvs⟩ := kinds_eq_cons h
  rw [List.map_eq_nil_iff.1 hvs]
  exact ⟨p, rfl⟩

theorem listTail_complete {ks : List TokenKind} {vs : List Value} (h : Grammar.Values ks vs) :
    ∀ {us : List Token} (p : Position) (rest : List Token), kinds us = ks →
      Reads listTail (us ++ ⟨.closeParen, p⟩ :: rest) vs rest := by
  induction h with
  | last hv =>
    intro us p rest hus
    obtain ⟨q, rfl⟩ := kinds_eq_singleton hus
    simp [reads_iff, listTail, literal?_eq_some_iff.2 hv, Except.map]
  | more hv _ ih =>
    intro us p rest hus
    obtain ⟨q, us₁, rfl, hus₁⟩ := kinds_eq_cons hus
    obtain ⟨q', us₂, rfl, hus₂⟩ := kinds_eq_cons hus₁
    obtain ⟨hlt, hr⟩ := ih p rest hus₂
    simp [reads_iff, listTail, literal?_eq_some_iff.2 hv, hr, Except.map]

theorem argumentTail_complete {ks : List TokenKind} {args : List String}
    (h : Grammar.Arguments ks args) :
    ∀ {us : List Token} (p : Position) (rest : List Token), kinds us = ks →
      Reads argumentTail (us ++ ⟨.closeParen, p⟩ :: rest) args rest := by
  induction h with
  | last arg =>
    intro us p rest hus
    obtain ⟨q, rfl⟩ := kinds_eq_singleton hus
    simp [reads_iff, argumentTail, Except.map]
  | more arg _ ih =>
    intro us p rest hus
    obtain ⟨q, us₁, rfl, hus₁⟩ := kinds_eq_cons hus
    obtain ⟨q', us₂, rfl, hus₂⟩ := kinds_eq_cons hus₁
    obtain ⟨hlt, hr⟩ := ih p rest hus₂
    simp [reads_iff, argumentTail, hr, Except.map]

/-- A run that ends in a parenthesis, put before the rest of the tokens. -/
theorem kinds_eq_closed {us : List Token} {ks : List TokenKind}
    (h : kinds us = ks ++ [.closeParen]) :
    ∃ vs q, kinds vs = ks ∧ ∀ rest, us ++ rest = vs ++ ⟨.closeParen, q⟩ :: rest := by
  obtain ⟨vs, ws, rfl, hvs, hws⟩ := List.map_eq_append_iff.1 h
  obtain ⟨q, rfl⟩ := kinds_eq_singleton hws
  exact ⟨vs, q, hvs, fun rest => by simp⟩

theorem call_complete (name : String) {ks : List TokenKind} {args : List String}
    (h : Grammar.Arguments ks args) {us : List Token} (rest : List Token)
    (hus : kinds us = .name name :: .openParen :: (ks ++ [.closeParen])) :
    Reads field (us ++ rest) (FieldRef.call name args) rest := by
  obtain ⟨p, us₁, rfl, hus₁⟩ := kinds_eq_cons hus
  obtain ⟨p', us₂, rfl, hus₂⟩ := kinds_eq_cons hus₁
  obtain ⟨vs, q, hvs, happend⟩ := kinds_eq_closed hus₂
  obtain ⟨hlt, hr⟩ := argumentTail_complete h q rest hvs
  simp only [List.cons_append, happend]
  simp [reads_iff, field, hr, Except.map]

/-- A field is read unless a parenthesis follows, which would make a column the name of a call. -/
theorem field_complete {ks : List TokenKind} {f : String} (h : Grammar.Field ks f)
    {us rest : List Token} (hus : kinds us = ks)
    (hnext : ∀ p ts, rest ≠ ⟨.openParen, p⟩ :: ts) : Reads field (us ++ rest) f rest := by
  cases h with
  | column =>
    obtain ⟨p, rfl⟩ := kinds_eq_singleton hus
    refine ⟨by simp, ?_⟩
    exact field.eq_2 f p rest hnext
  | call name hargs => exact call_complete name hargs rest hus

theorem operation_complete {ks : List TokenKind} {op : Operator} {v : Value}
    (h : Grammar.Operation ks op v) {us : List Token} (rest : List Token) (hus : kinds us = ks) :
    Reads operation (us ++ rest) (op, v) rest := by
  cases h with
  | compare c hv =>
    obtain ⟨p, us₁, rfl, hus₁⟩ := kinds_eq_cons hus
    obtain ⟨q, rfl⟩ := kinds_eq_singleton hus₁
    simp [reads_iff, operation, value, literal?_eq_some_iff.2 hv, Except.map]
  | like hv =>
    obtain ⟨p, us₁, rfl, hus₁⟩ := kinds_eq_cons hus
    obtain ⟨q, rfl⟩ := kinds_eq_singleton hus₁
    simp [reads_iff, operation, value, literal?_eq_some_iff.2 hv, Except.map]
  | contains s =>
    obtain ⟨p, us₁, rfl, hus₁⟩ := kinds_eq_cons hus
    obtain ⟨q, rfl⟩ := kinds_eq_singleton hus₁
    simp [reads_iff, operation, Except.map]
  | isIn hvs hlength =>
    obtain ⟨p, us₁, rfl, hus₁⟩ := kinds_eq_cons hus
    obtain ⟨p', us₂, rfl, hus₂⟩ := kinds_eq_cons hus₁
    obtain ⟨vs, q, hks, happend⟩ := kinds_eq_closed hus₂
    obtain ⟨hlt, hr⟩ := listTail_complete hvs q rest hks
    simp only [List.cons_append, happend]
    simp [reads_iff, operation, valueList, hr, maxListValues, Nat.not_lt.2 hlength, Except.map]
  | between hlow hhigh =>
    obtain ⟨p, us₁, rfl, hus₁⟩ := kinds_eq_cons hus
    obtain ⟨p₁, us₂, rfl, hus₂⟩ := kinds_eq_cons hus₁
    obtain ⟨p₂, us₃, rfl, hus₃⟩ := kinds_eq_cons hus₂
    obtain ⟨p₃, rfl⟩ := kinds_eq_singleton hus₃
    simp [reads_iff, operation, range, value, keyword, literal?_eq_some_iff.2 hlow,
      literal?_eq_some_iff.2 hhigh, Except.map]
  | isNull =>
    obtain ⟨p, us₁, rfl, hus₁⟩ := kinds_eq_cons hus
    obtain ⟨q, rfl⟩ := kinds_eq_singleton hus₁
    simp [reads_iff, operation, nullCheck, keyword, Except.map]
  | isNotNull =>
    obtain ⟨p, us₁, rfl, hus₁⟩ := kinds_eq_cons hus
    obtain ⟨p', us₂, rfl, hus₂⟩ := kinds_eq_cons hus₁
    obtain ⟨q, rfl⟩ := kinds_eq_singleton hus₂
    simp [reads_iff, operation, nullCheck, keyword, Except.map]

theorem append_ne_openParen {us : List Token} {k : TokenKind} {ks : List TokenKind}
    (hus : kinds us = k :: ks) (hk : k ≠ .openParen) (rest : List Token) (p : Position)
    (ts : List Token) : us ++ rest ≠ ⟨.openParen, p⟩ :: ts := by
  obtain ⟨q, vs, rfl, _⟩ := kinds_eq_cons hus
  intro heq
  cases heq
  exact hk rfl

/-- An operator is a sign or a word, never a parenthesis. -/
theorem operation_ne_openParen {ks : List TokenKind} {op : Operator} {v : Value}
    (h : Grammar.Operation ks op v) {us : List Token} (hus : kinds us = ks) (rest : List Token)
    (p : Position) (ts : List Token) : us ++ rest ≠ ⟨.openParen, p⟩ :: ts := by
  cases h <;> exact append_ne_openParen hus (by simp) rest p ts

/-- A field starts with a name, never with a parenthesis. -/
theorem field_ne_openParen {ks : List TokenKind} {f : String} (h : Grammar.Field ks f)
    {us : List Token} (hus : kinds us = ks) (rest : List Token) (p : Position) (ts : List Token) :
    us ++ rest ≠ ⟨.openParen, p⟩ :: ts := by
  cases h <;> exact append_ne_openParen hus (by simp) rest p ts

theorem comparisonCondition_complete {fs os : List TokenKind} {f : String} {op : Operator}
    {v : Value} (hfield : Grammar.Field fs f) (hop : Grammar.Operation os op v) (link : Link)
    {us : List Token} (rest : List Token) (hus : kinds us = fs ++ os) :
    Reads (comparisonCondition link) (us ++ rest) (.compare link ⟨f, op, v⟩) rest := by
  obtain ⟨us₁, us₂, rfl, rfl, rfl⟩ := List.map_eq_append_iff.1 hus
  obtain ⟨_, hf⟩ := field_complete hfield rfl (operation_ne_openParen hop rfl rest)
  obtain ⟨_, ho⟩ := operation_complete hop rest rfl
  rw [List.append_assoc, reads_iff]
  simp [comparisonCondition, comparison, hf, ho, Except.map]

theorem chain_complete_last {condition : Link → Rule Condition} {link : Link}
    {ts rest : List Token} {c : Condition} (h : Reads (condition link) ts c rest)
    (hnext : nextLink rest = none) : Reads (chain condition link) ts [c] rest := by
  obtain ⟨_, hc⟩ := h
  rw [reads_iff, chain]
  simp [hc, hnext, Except.map]

theorem chain_complete_more {condition : Link → Rule Condition} {link next : Link}
    {ts us rest : List Token} {t : Token} {c : Condition} {cs : List Condition}
    (h : Reads (condition link) ts c (t :: us)) (ht : Grammar.Connective t.kind next)
    (hs : Reads (chain condition next) us cs rest) :
    Reads (chain condition link) ts (c :: cs) rest := by
  obtain ⟨_, hc⟩ := h
  obtain ⟨_, hcs⟩ := hs
  rw [reads_iff, chain]
  simp [hc, nextLink, link?_eq_some_iff.2 ht, hcs, Except.map]

mutual

/-- A condition is read, whatever follows, if there is room for its groups. -/
theorem condition_complete {link : Link} {ks : List TokenKind} {c : Condition}
    (h : Grammar.Entry link ks c) {room : Nat} (hroom : c.nesting ≤ room) {us : List Token}
    (rest : List Token) (hus : kinds us = ks) : Reads (condition room link) (us ++ rest) c rest := by
  cases h with
  | compare hfield hop =>
    refine reads_condition_iff.2 (Or.inr ⟨?_, comparisonCondition_complete hfield hop link rest hus⟩)
    obtain ⟨us₁, us₂, rfl, rfl, rfl⟩ := List.map_eq_append_iff.1 hus
    rw [List.append_assoc]
    exact field_ne_openParen hfield rfl _
  | group hmembers =>
    obtain ⟨p, us₁, rfl, hus₁⟩ := kinds_eq_cons hus
    obtain ⟨vs, q, hvs, happend⟩ := kinds_eq_closed hus₁
    rw [Condition.nesting] at hroom
    obtain ⟨left, rfl⟩ : ∃ left, room = left + 1 := ⟨room - 1, by omega⟩
    have hchain := chain_complete hmembers (Nat.le_of_succ_le_succ hroom)
      (⟨.closeParen, q⟩ :: rest) hvs rfl
    exact reads_condition_iff.2 (Or.inl ⟨left, p, q, us₁ ++ rest, _, _, rfl, rfl,
      happend rest ▸ hchain, rfl, rfl⟩)

/-- A chain is read unless a link follows, which would make it longer. -/
theorem chain_complete {link : Link} {ks : List TokenKind} {cs : List Condition}
    (h : Grammar.Chain link ks cs) {room : Nat} (hroom : nestingOf cs ≤ room) {us : List Token}
    (rest : List Token) (hus : kinds us = ks) (hnext : nextLink rest = none) :
    Reads (chain (condition room) link) (us ++ rest) cs rest := by
  cases h with
  | last hc =>
    have hroom' : _ ≤ room := Nat.le_trans (Nat.le_max_left _ _) hroom
    exact chain_complete_last (condition_complete hc hroom' rest hus) hnext
  | more hc ht hcs =>
    obtain ⟨us₁, us₂, rfl, rfl, hus₂⟩ := List.map_eq_append_iff.1 hus
    obtain ⟨p, us₃, rfl, rfl⟩ := kinds_eq_cons hus₂
    obtain ⟨hroom₁, hroom₂⟩ := Nat.max_le.1 hroom
    rw [List.append_assoc]
    exact chain_complete_more (condition_complete hc hroom₁ _ rfl) ht
      (chain_complete hcs hroom₂ rest rfl hnext)

end

/-- What follows a key: the end, or a token that no key can go on with. -/
def EndsKey (rest : List Token) : Prop :=
  ∀ t ts, rest = t :: ts →
    t.kind ≠ .openParen ∧ t.kind ≠ .keyword .asc ∧ t.kind ≠ .keyword .desc

theorem direction_of_endsKey {rest : List Token} (h : EndsKey rest) :
    direction rest = (.ascending, rest) := by
  unfold direction
  split
  · exact absurd rfl (h _ _ rfl).2.2
  · exact absurd rfl (h _ _ rfl).2.1
  · rfl

theorem key_complete {ks : List TokenKind} {item : OrderItem} (h : Grammar.Key ks item)
    {us rest : List Token} (hus : kinds us = ks) (hrest : EndsKey rest) :
    ∃ mid, Reads field (us ++ rest) item.field mid ∧ direction mid = (item.direction, rest) := by
  cases h with
  | plain hf =>
    have hnext : ∀ p ts, rest ≠ ⟨.openParen, p⟩ :: ts := fun p ts h => (hrest _ _ h).1 rfl
    exact ⟨rest, field_complete hf hus hnext, direction_of_endsKey hrest⟩
  | ascending hf =>
    obtain ⟨us₁, us₂, rfl, hus₁, hus₂⟩ := List.map_eq_append_iff.1 hus
    obtain ⟨p, rfl⟩ := kinds_eq_singleton hus₂
    rw [List.append_assoc]
    exact ⟨_, field_complete hf hus₁ (by simp), rfl⟩
  | descending hf =>
    obtain ⟨us₁, us₂, rfl, hus₁, hus₂⟩ := List.map_eq_append_iff.1 hus
    obtain ⟨p, rfl⟩ := kinds_eq_singleton hus₂
    rw [List.append_assoc]
    exact ⟨_, field_complete hf hus₁ (by simp), rfl⟩

theorem orderItems_complete_last {ts mid : List Token} {f : String} (hf : Reads field ts f mid)
    (hnext : nextKey (direction mid).2 = none) :
    Reads orderItems ts [⟨f, (direction mid).1⟩] (direction mid).2 := by
  obtain ⟨_, hf⟩ := hf
  rw [reads_iff, orderItems]
  simp [hf, hnext, Except.map]

theorem nextKey_comma {ts us : List Token} {p : Position} (h : ts = ⟨.comma, p⟩ :: us) :
    ∃ c, nextKey ts = some c ∧ c.rest = us := by
  subst h
  exact ⟨_, rfl, rfl⟩

theorem orderItems_complete_more {ts mid us rest : List Token} {f : String} {p : Position}
    {items : List OrderItem} (hf : Reads field ts f mid)
    (hnext : (direction mid).2 = ⟨.comma, p⟩ :: us) (hs : Reads orderItems us items rest) :
    Reads orderItems ts (⟨f, (direction mid).1⟩ :: items) rest := by
  obtain ⟨_, hf⟩ := hf
  obtain ⟨c, hc, rfl⟩ := nextKey_comma hnext
  obtain ⟨_, hr⟩ := hs
  rw [reads_iff, orderItems]
  simp [hf, hc, hr, Except.map]

/-- The keys of an ordering are read unless a comma follows, or more of the last key. -/
theorem orderItems_complete {ks : List TokenKind} {items : List OrderItem}
    (h : Grammar.Keys ks items) : ∀ {us rest : List Token}, kinds us = ks → EndsKey rest →
      nextKey rest = none → Reads orderItems (us ++ rest) items rest := by
  induction h with
  | last hkey =>
    intro us rest hus hrest hnext
    obtain ⟨mid, hf, hd⟩ := key_complete hkey hus hrest
    have hlast := orderItems_complete_last hf
    rw [hd] at hlast
    exact hlast hnext
  | more hkey _ ih =>
    intro us rest hus hrest hnext
    obtain ⟨us₁, us₂, rfl, hus₁, hus₂⟩ := List.map_eq_append_iff.1 hus
    obtain ⟨p, us₃, rfl, hus₃⟩ := kinds_eq_cons hus₂
    have hcomma : EndsKey (⟨.comma, p⟩ :: us₃ ++ rest) := by
      intro t ts ht
      cases ht
      simp
    obtain ⟨mid, hf, hd⟩ := key_complete hkey hus₁ hcomma
    have hmore := orderItems_complete_more hf (congrArg Prod.snd hd) (ih hus₃ hrest hnext)
    rw [hd] at hmore
    rw [List.append_assoc]
    exact hmore

/-- What follows a clause: the end, or one of the given keywords. -/
def Follows (heads : List Keyword) (rest : List Token) : Prop :=
  ∀ t ts, rest = t :: ts → ∃ k ∈ heads, t.kind = .keyword k

theorem follows_nil (heads : List Keyword) : Follows heads [] := by
  intro t ts h
  cases h

theorem follows_cons {heads : List Keyword} {k : Keyword} (hk : k ∈ heads) (p : Position)
    (ts : List Token) : Follows heads (⟨.keyword k, p⟩ :: ts) := by
  intro t ts' h
  cases h
  exact ⟨k, hk, rfl⟩

theorem Follows.mono {heads more : List Keyword} {rest : List Token} (h : Follows heads rest)
    (hsub : ∀ k ∈ heads, k ∈ more) : Follows more rest := by
  intro t ts hts
  obtain ⟨k, hk, ht⟩ := h t ts hts
  exact ⟨k, hsub k hk, ht⟩

/-- No keyword that is not among the given ones comes next. -/
theorem Follows.ne {heads : List Keyword} {rest : List Token} (h : Follows heads rest)
    {k : Keyword} (hk : k ∉ heads) (p : Position) (ts : List Token) :
    rest ≠ ⟨.keyword k, p⟩ :: ts := by
  intro hrest
  obtain ⟨k', hk', ht⟩ := h _ _ hrest
  cases ht
  exact hk hk'

theorem nextLink_of_follows {rest : List Token} (h : Follows [.order, .limit, .latest] rest) :
    nextLink rest = none := by
  cases rest with
  | nil => rfl
  | cons t ts =>
    obtain ⟨k, hk, ht⟩ := h t ts rfl
    rw [nextLink, ht]
    fin_cases hk <;> rfl

theorem whereClause_complete {ks : List TokenKind} {cs : List Condition} (h : Grammar.Where ks cs)
    (hnesting : nestingOf cs ≤ 16) {us rest : List Token} (hus : kinds us = ks)
    (hrest : Follows [.order, .limit, .latest] rest) :
    whereClause (us ++ rest) = .ok (cs, rest) := by
  cases h with
  | absent =>
    rw [List.map_eq_nil_iff.1 hus]
    exact whereClause.eq_2 rest (hrest.ne (by simp))
  | present hchain =>
    obtain ⟨p, us₁, rfl, hus₁⟩ := kinds_eq_cons hus
    obtain ⟨_, hr⟩ := chain_complete hchain hnesting rest hus₁ (nextLink_of_follows hrest)
    simp [whereClause, conditions, maxGroupDepth, hr]

theorem orderClause_complete {ks : List TokenKind} {items : List OrderItem}
    (h : Grammar.Order ks items) {us rest : List Token} (hus : kinds us = ks)
    (hrest : Follows [.limit, .latest] rest) :
    orderClause (us ++ rest) = .ok (items, rest) ∧
      Follows [.order, .limit, .latest] (us ++ rest) := by
  cases h with
  | absent =>
    rw [List.map_eq_nil_iff.1 hus]
    exact ⟨orderClause.eq_2 rest (hrest.ne (by simp)), hrest.mono (by simp)⟩
  | present hkeys =>
    obtain ⟨p, us₁, rfl, hus₁⟩ := kinds_eq_cons hus
    obtain ⟨p', us₂, rfl, hus₂⟩ := kinds_eq_cons hus₁
    have hend : EndsKey rest := by
      intro t ts hts
      obtain ⟨k, hk, ht⟩ := hrest t ts hts
      rw [ht]
      fin_cases hk <;> simp
    have hnext : nextKey rest = none := by
      cases rest with
      | nil => rfl
      | cons t ts =>
        obtain ⟨k, hk, ht⟩ := hrest t ts rfl
        obtain ⟨kind, q⟩ := t
        cases ht
        rfl
    obtain ⟨_, hr⟩ := orderItems_complete hkeys hus₂ hend hnext
    refine ⟨?_, follows_cons (by simp) p _⟩
    simp [orderClause, keyword, hr]

theorem limitClause_complete {ks : List TokenKind} {n : Option Nat} (h : Grammar.Limit ks n)
    {us rest : List Token} (hus : kinds us = ks) (hrest : Follows [.latest] rest) :
    limitClause (us ++ rest) = .ok (n, rest) ∧ Follows [.limit, .latest] (us ++ rest) := by
  cases h with
  | absent =>
    rw [List.map_eq_nil_iff.1 hus]
    exact ⟨limitClause.eq_2 rest (hrest.ne (by simp)), hrest.mono (by simp)⟩
  | present hn =>
    obtain ⟨p, us₁, rfl, hus₁⟩ := kinds_eq_cons hus
    obtain ⟨p', rfl⟩ := kinds_eq_singleton hus₁
    refine ⟨?_, follows_cons (by simp) p _⟩
    simp [limitClause, limit, hn]

theorem latestClause_complete {ks : List TokenKind} {latest : Bool} (h : Grammar.Latest ks latest)
    {us : List Token} (hus : kinds us = ks) :
    latestClause us = (latest, []) ∧ Follows [.latest] us := by
  cases h with
  | absent =>
    rw [List.map_eq_nil_iff.1 hus]
    exact ⟨rfl, follows_nil _⟩
  | present =>
    obtain ⟨p, rfl⟩ := kinds_eq_singleton hus
    exact ⟨rfl, follows_cons (by simp) p _⟩

/-- The clauses of records, with the tokens of each, as the parser reads them from the right. -/
theorem clauses_split {ws os ls ks : List TokenKind} {items : List OrderItem} {n : Option Nat}
    {latest : Bool} (horder : Grammar.Order os items) (hlimit : Grammar.Limit ls n)
    (hlatest : Grammar.Latest ks latest) {ts : List Token}
    (hts : kinds ts = ws ++ (os ++ (ls ++ ks))) :
    ∃ us rest rest' rest'', ts = us ++ rest ∧ kinds us = ws ∧
      Follows [.order, .limit, .latest] rest ∧ orderClause rest = .ok (items, rest') ∧
      limitClause rest' = .ok (n, rest'') ∧ latestClause rest'' = (latest, []) := by
  obtain ⟨us, ts₁, rfl, hus, hts₁⟩ := List.map_eq_append_iff.1 hts
  obtain ⟨vs, ts₂, rfl, hvs, hts₂⟩ := List.map_eq_append_iff.1 hts₁
  obtain ⟨xs, ys, rfl, hxs, hys⟩ := List.map_eq_append_iff.1 hts₂
  obtain ⟨hlatest', hfollow₁⟩ := latestClause_complete hlatest hys
  obtain ⟨hlimit', hfollow₂⟩ := limitClause_complete hlimit hxs hfollow₁
  obtain ⟨horder', hfollow₃⟩ := orderClause_complete horder hvs hfollow₂
  exact ⟨us, _, _, _, rfl, hus, hfollow₃, horder', hlimit', hlatest'⟩

/-- Whatever the grammar derives, with groups at most 16 deep, the parser accepts. -/
theorem query_complete {ks : List TokenKind} {q : Query} (h : Grammar.Whole ks q)
    (hnesting : nestingOf q.conditions ≤ 16) {ts : List Token} (hts : kinds ts = ks) :
    query ts = .ok q := by
  cases h with
  | records hverb hname hwhere horder hlimit hlatest =>
    obtain ⟨p, ts₁, rfl, hts₁⟩ := kinds_eq_cons hts
    obtain ⟨p', ts₂, rfl, hts₂⟩ := kinds_eq_cons hts₁
    obtain ⟨us, r₁, r₂, r₃, rfl, hus, hfollow, horder', hlimit', hlatest'⟩ :=
      clauses_split horder hlimit hlatest hts₂
    have hwhere' := whereClause_complete hwhere hnesting hus hfollow
    cases hverb <;>
      simp [query, verb, entity, hname, clauses, hwhere', horder', hlimit', hlatest', bind,
        Except.bind]
  | count hname hwhere =>
    obtain ⟨p, ts₁, rfl, hts₁⟩ := kinds_eq_cons hts
    obtain ⟨p', ws, rfl, hws⟩ := kinds_eq_cons hts₁
    have hwhere' := whereClause_complete hwhere hnesting hws (follows_nil _)
    rw [List.append_nil] at hwhere'
    simp [query, verb, entity, hname, clauses, hwhere', bind, Except.bind]

/-! ## Unambiguity -/

theorem Reads.unique {α : Type} {rule : Rule α} {ts rest rest' : List Token} {a a' : α}
    (h : Reads rule ts a rest) (h' : Reads rule ts a' rest') : a = a' ∧ rest = rest' := by
  obtain ⟨_, h⟩ := h
  obtain ⟨_, h'⟩ := h'
  cases h.symm.trans h'
  exact ⟨rfl, rfl⟩

/-- Conditions of any depth end where no other derivation can end them: with enough room for both,
the parser reads both. -/
theorem where_unique {ks ks' : List TokenKind} {cs cs' : List Condition} (h : Grammar.Where ks cs)
    (h' : Grammar.Where ks' cs') {us us' rest rest' : List Token} (hus : kinds us = ks)
    (hus' : kinds us' = ks') (hrest : Follows [.order, .limit, .latest] rest)
    (hrest' : Follows [.order, .limit, .latest] rest') (heq : us ++ rest = us' ++ rest') :
    cs = cs' ∧ rest = rest' := by
  cases h with
  | absent =>
    obtain rfl := List.map_eq_nil_iff.1 hus
    cases h' with
    | absent =>
      obtain rfl := List.map_eq_nil_iff.1 hus'
      exact ⟨rfl, heq⟩
    | present _ =>
      obtain ⟨p, us₁, rfl, _⟩ := kinds_eq_cons hus'
      exact absurd heq (hrest.ne (by simp) p (us₁ ++ rest'))
  | present hchain =>
    obtain ⟨p, us₁, rfl, hus₁⟩ := kinds_eq_cons hus
    cases h' with
    | absent =>
      obtain rfl := List.map_eq_nil_iff.1 hus'
      exact absurd heq.symm (hrest'.ne (by simp) p (us₁ ++ rest))
    | present hchain' =>
      obtain ⟨p', us₂, rfl, hus₂⟩ := kinds_eq_cons hus'
      have htail : us₁ ++ rest = us₂ ++ rest' := (List.cons.inj heq).2
      have hreads := chain_complete hchain (Nat.le_max_left _ (nestingOf cs')) rest hus₁
        (nextLink_of_follows hrest)
      have hreads' := chain_complete hchain' (Nat.le_max_right (nestingOf cs) _) rest' hus₂
        (nextLink_of_follows hrest')
      rw [htail] at hreads
      exact hreads.unique hreads'

/-- The grammar is unambiguous: tokens stand for one query at most, however deep its groups nest. -/
theorem whole_unique {ks ks' : List TokenKind} {q q' : Query} (h : Grammar.Whole ks q)
    (h' : Grammar.Whole ks' q') {ts : List Token} (hts : kinds ts = ks) (hts' : kinds ts = ks') :
    q = q' := by
  cases h with
  | records hverb hname hwhere horder hlimit hlatest =>
    obtain ⟨p₁, ts₁, rfl, hts₁⟩ := kinds_eq_cons hts
    obtain ⟨p₂, ts₂, rfl, hts₂⟩ := kinds_eq_cons hts₁
    cases h' with
    | records hverb' hname' hwhere' horder' hlimit' hlatest' =>
      obtain ⟨p₁', ts₁', heq₁, hts₁'⟩ := kinds_eq_cons hts'
      cases heq₁
      obtain ⟨p₂', ts₂', heq₂, hts₂'⟩ := kinds_eq_cons hts₁'
      cases heq₂
      cases hname.symm.trans hname'
      obtain ⟨us, r₁, r₂, r₃, rfl, hus, hfollow, ho, hl, hk⟩ :=
        clauses_split horder hlimit hlatest hts₂
      obtain ⟨us', r₁', r₂', r₃', heq, hus', hfollow', ho', hl', hk'⟩ :=
        clauses_split horder' hlimit' hlatest' hts₂'
      obtain ⟨rfl, rfl⟩ := where_unique hwhere hwhere' hus hus' hfollow hfollow' heq
      cases ho.symm.trans ho'
      cases hl.symm.trans hl'
      cases hk.symm.trans hk'
      rfl
    | count _ _ =>
      obtain ⟨p₁', ts₁', heq₁, _⟩ := kinds_eq_cons hts'
      cases heq₁
      cases hverb
  | count hname hwhere =>
    obtain ⟨p₁, ts₁, rfl, hts₁⟩ := kinds_eq_cons hts
    obtain ⟨p₂, ts₂, rfl, hts₂⟩ := kinds_eq_cons hts₁
    cases h' with
    | records hverb' _ _ _ _ _ =>
      obtain ⟨p₁', ts₁', heq₁, _⟩ := kinds_eq_cons hts'
      cases heq₁
      cases hverb'
    | count hname' hwhere' =>
      obtain ⟨p₁', ts₁', heq₁, hts₁'⟩ := kinds_eq_cons hts'
      cases heq₁
      obtain ⟨p₂', ts₂', heq₂, hts₂'⟩ := kinds_eq_cons hts₁'
      cases heq₂
      cases hname.symm.trans hname'
      obtain ⟨rfl, _⟩ := where_unique hwhere hwhere' hts₂ hts₂' (follows_nil _) (follows_nil _) rfl
      rfl

end NetQuery.Parser

namespace NetQuery

theorem TokenStream.query_eq_ok {stream : TokenStream} {q : Query} :
    stream.query = .ok q ↔ Parser.query stream.tokens = .ok q := by
  unfold TokenStream.query
  cases Parser.query stream.tokens with
  | error fault => simp [Except.mapError]
  | ok q' => simp [Except.mapError]

/-- The parser accepts exactly the grammar. A stream of tokens is read as a query if and only if the
grammar derives that query from it and its groups nest at most 16 deep; and no other query is
derived from a stream that is accepted, not even with deeper groups. -/
theorem TokenStream.query_iff_derived (stream : TokenStream) (q : Query) :
    (stream.query = .ok q ↔
      Grammar.Whole (stream.tokens.map Token.kind) q ∧ nestingOf q.conditions ≤ 16) ∧
    (stream.query = .ok q →
      ∀ q', Grammar.Whole (stream.tokens.map Token.kind) q' → q' = q) := by
  rw [TokenStream.query_eq_ok]
  refine ⟨⟨Parser.query_sound, ?_⟩, ?_⟩
  · rintro ⟨hwhole, hnesting⟩
    exact Parser.query_complete hwhole hnesting rfl
  · intro hq q' hwhole
    exact Parser.whole_unique hwhole (Parser.query_sound hq).1 rfl rfl

end NetQuery
