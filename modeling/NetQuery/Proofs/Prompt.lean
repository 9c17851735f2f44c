import NetQuery.Proofs.Rules

/-!
# Steps that look one token ahead

A step of the parser takes tokens from the front of those that are left, and the one that comes next
tells it whether to go on. `Prompt` says that this is all the step uses, and that it never goes too
far: what it makes of the tokens that it has read depends on the kind of the next one only, and
wherever it asks for something there are tokens that would bring it to its end. Steps in a row are
prompt if each of them is.

One thing is not noticed as soon as it could be. A list may not have more than 200 values, and one
that has more is refused only when it is closed.
-/

namespace NetQuery

namespace Grammar

/-- The values of a list that is not closed yet, and their number. A comma may come after the last
of them. -/
inductive OpenList : List TokenKind → Nat → Prop where
  | empty : OpenList [] 0
  | last {t : TokenKind} {v : Value} (h : Literal t v) : OpenList [t] 1
  | more {t : TokenKind} {v : Value} {ts : List TokenKind} {n : Nat} (h : Literal t v)
      (hs : OpenList ts n) : OpenList (t :: .comma :: ts) (n + 1)

/-- The tokens end inside a list that holds at least 200 values already. -/
def InLongList (ks : List TokenKind) : Prop :=
  ∃ before inside n, ks = before ++ .keyword .in :: .openParen :: inside ∧ OpenList inside n ∧
    200 ≤ n

variable {ks : List TokenKind} {n : Nat}

/-- A list that is not closed yet needs one more value at most before it may be closed. -/
theorem OpenList.exists_values (h : OpenList ks n) :
    ∃ more vs, Values (ks ++ more) vs ∧ vs.length ≤ n + 1 := by
  induction h with
  | empty => exact ⟨[.int 0], [.int 0], .last (.int 0), Nat.le_refl 1⟩
  | @last t v hv => exact ⟨[], [v], .last hv, Nat.le_succ 1⟩
  | @more t v ts n hv _ ih =>
    obtain ⟨more, vs, hvs, hlength⟩ := ih
    exact ⟨more, v :: vs, .more hv hvs, Nat.succ_le_succ hlength⟩

theorem OpenList.le_length (h : OpenList ks n) : n ≤ ks.length := by
  induction h with
  | empty => exact Nat.le_refl 0
  | last => exact Nat.le_refl 1
  | more _ _ ih => exact Nat.le_succ_of_le (Nat.succ_le_succ ih)

theorem InLongList.append (h : InLongList ks) (front : List TokenKind) :
    InLongList (front ++ ks) := by
  obtain ⟨before, inside, n, rfl, hinside, hn⟩ := h
  exact ⟨front ++ before, inside, n, by rw [List.append_assoc], hinside, hn⟩

theorem InLongList.le_length (h : InLongList ks) : 200 ≤ ks.length := by
  obtain ⟨before, inside, n, rfl, hinside, hn⟩ := h
  have hle := hinside.le_length
  simp only [List.length_append, List.length_cons]
  omega

end Grammar

namespace Parser

open Grammar

/-! ## The next token -/

/-- The kind of the next token. There is none at the end. -/
def next (ts : List Token) : Option TokenKind := ts.head?.map Token.kind

theorem next_eq_none {ts : List Token} (h : next ts = none) : ts = [] :=
  List.head?_eq_none_iff.1 (Option.map_eq_none_iff.1 h)

theorem next_eq_some {ts : List Token} {k : TokenKind} (h : next ts = some k) :
    ∃ p us, ts = ⟨k, p⟩ :: us := by
  obtain ⟨⟨_, p⟩, ht, rfl⟩ := Option.map_eq_some_iff.1 h
  obtain ⟨us, rfl⟩ := List.head?_eq_some_iff.1 ht
  exact ⟨p, us, rfl⟩

theorem next_append {us : List Token} (hus : us ≠ []) (rest rest' : List Token) :
    next (us ++ rest) = next (us ++ rest') := by
  obtain ⟨u, us, rfl⟩ := List.exists_cons_of_ne_nil hus
  rfl

theorem next_append_congr (us : List Token) {rest rest' : List Token} (h : next rest = next rest') :
    next (us ++ rest) = next (us ++ rest') := by
  cases us with
  | nil => exact h
  | cons u us => rfl

/-- What may come next after a step. -/
abbrev Follow : Type := Option TokenKind → Prop

/-- Any token may come next, and the end. -/
def anything : Follow := fun _ => True

/-- Only the end may come next. -/
def theEnd : Follow := fun k => k = none

/-! ## Steps -/

/-- What is read from the tokens, and the tokens that are left. -/
abbrev Step (α : Type) : Type := List Token → Except GrammarFault (α × List Token)

variable {α β : Type} {F G : Follow} {step first : Step α} {second : α → Step β}
  {ts used more : List Token} {kind : TokenKind} {what : Expectation} {k : Option TokenKind}

/-- One step and then another, which goes on from what the first one read. -/
def Step.andThen (first : Step α) (second : α → Step β) : Step β := fun ts =>
  first ts >>= fun r => second r.1 r.2

/-- A step, with a function of what it reads. -/
def Step.map (step : Step α) (f : α → β) : Step β := fun ts =>
  step ts >>= fun r => .ok (f r.1, r.2)

/-- The step never reads nothing. -/
def Takes (step : Step α) : Prop := ∀ ts a, step ts ≠ .ok (a, ts)

theorem takes_run (rule : Rule α) : Takes (run rule) := fun _ _ h =>
  absurd (length_lt_of_run h) (Nat.lt_irrefl _)

theorem Takes.map (h : Takes step) (f : α → β) : Takes (step.map f) := by
  intro us b hb
  obtain ⟨⟨a, rest⟩, ha, hr⟩ := bind_eq_ok_iff.1 hb
  obtain rfl : rest = us := congrArg Prod.snd (Except.ok.inj hr)
  exact h rest a ha

/-- The step reads the given tokens, and no more, before anything that may follow. -/
def Completes (F : Follow) (step : Step α) (us : List Token) : Prop :=
  ∀ rest, F (next rest) → ∃ a, step (us ++ rest) = .ok (a, rest)

theorem Completes.andThen (h : Completes G step used) (hsecond : ∀ a, Completes F (second a) more)
    (hfollow : ∀ rest, F (next rest) → G (next (more ++ rest))) :
    Completes F (step.andThen second) (used ++ more) := by
  intro rest hrest
  obtain ⟨a, ha⟩ := h (more ++ rest) (hfollow rest hrest)
  obtain ⟨b, hb⟩ := hsecond a rest hrest
  exact ⟨b, bind_eq_ok_iff.2 ⟨_, List.append_assoc .. ▸ ha, hb⟩⟩

/-- Nothing more is needed where the end of the tokens is read. -/
theorem completes_nil {a : α} (h : step [] = .ok (a, [])) : Completes theEnd step [] := by
  intro rest hrest
  rw [next_eq_none hrest]
  exact ⟨a, h⟩

/-- After it has read `used`, the step asks for something else than what comes next. -/
structure Asks (F : Follow) (step : Step α) (what : Expectation) (used : List Token)
    (k : Option TokenKind) : Prop where
  /-- It does so before any tokens of which the next is of this kind. -/
  fault : ∀ left, next left = k → step (used ++ left) = .error (.expected what left)
  /-- Other tokens would have brought it to its end. -/
  viable : ¬InLongList (kinds used) → ∃ more, Completes F step (used ++ more)

/-- A step that looks one token ahead, on the tokens `ts`. -/
structure Prompt (F : Follow) (step : Step α) (ts : List Token) : Prop where
  /-- What it reads, it reads before any tokens of which the next is the same or may follow. -/
  ok : ∀ a rest, step ts = .ok (a, rest) → ∃ used, ts = used ++ rest ∧
    ∀ rest', next rest' = next rest ∨ F (next rest') → step (used ++ rest') = .ok (a, rest')
  /-- What it asks for, it asks for as soon as it must. -/
  expected : ∀ what left, step ts = .error (.expected what left) →
    ∃ used, ts = used ++ left ∧ Asks F step what used (next left)

namespace Prompt

theorem mono (h : Prompt G step ts) (hF : ∀ k, F k → G k) : Prompt F step ts where
  ok := by
    intro a rest hok
    obtain ⟨used, hts, hused⟩ := h.ok a rest hok
    exact ⟨used, hts, fun rest' hrest' => hused rest' (hrest'.imp_right (hF _))⟩
  expected := by
    intro what left herror
    obtain ⟨used, hts, hasks⟩ := h.expected what left herror
    refine ⟨used, hts, hasks.fault, fun hlist => ?_⟩
    obtain ⟨more, hmore⟩ := hasks.viable hlist
    exact ⟨more, fun rest hrest => hmore rest (hF _ hrest)⟩

/-! ## Single steps -/

/-- A step that reads nothing. -/
theorem pass (P : Follow) (a : α) (hts : P (next ts)) (hF : ∀ k, F k → P k)
    (h : ∀ us, P (next us) → step us = .ok (a, us)) : Prompt F step ts where
  ok := by
    intro b rest hok
    rw [h ts hts] at hok
    cases hok
    refine ⟨[], rfl, fun rest' hrest' => h rest' ?_⟩
    exact hrest'.elim (fun heq => heq ▸ hts) (hF _)
  expected := by
    intro what left herror
    rw [h ts hts] at herror
    cases herror

/-- A step that reads one token. -/
theorem take {p : Position} {a : α} (h : ∀ p us, step (⟨kind, p⟩ :: us) = .ok (a, us)) :
    Prompt F step (⟨kind, p⟩ :: ts) where
  ok := by
    intro b rest hok
    rw [h] at hok
    cases hok
    exact ⟨[⟨kind, p⟩], rfl, fun rest' _ => h p rest'⟩
  expected := by
    intro what left herror
    rw [h] at herror
    cases herror

/-- A step that asks for something else than the next token. -/
theorem here (h : ∀ us, next us = next ts → step us = .error (.expected what us))
    (hmore : Completes F step more) : Prompt F step ts where
  ok := by
    intro a rest hok
    rw [h ts rfl] at hok
    cases hok
  expected := by
    intro what left herror
    rw [h ts rfl] at herror
    cases herror
    exact ⟨[], rfl, h, fun _ => ⟨more, hmore⟩⟩

theorem here_nil (h : step [] = .error (.expected what [])) (hmore : Completes F step more) :
    Prompt F step [] := by
  have hhere : ∀ us, next us = next [] → step us = .error (.expected what us) := by
    intro us hus
    rw [next_eq_none hus, h]
  exact here hhere hmore

theorem here_cons {p : Position}
    (h : ∀ p us, step (⟨kind, p⟩ :: us) = .error (.expected what (⟨kind, p⟩ :: us)))
    (hmore : Completes F step more) : Prompt F step (⟨kind, p⟩ :: ts) := by
  have hhere : ∀ us, next us = some kind → step us = .error (.expected what us) := by
    intro us hus
    obtain ⟨q, us, rfl⟩ := next_eq_some hus
    exact h q us
  exact here hhere hmore

/-- A fault of another sort. -/
theorem other {fault : GrammarFault} (h : step ts = .error fault)
    (hfault : ∀ what left, fault ≠ .expected what left) : Prompt F step ts where
  ok := by
    intro a rest hok
    rw [h] at hok
    cases hok
  expected := by
    intro what left herror
    rw [h] at herror
    cases herror
    exact absurd rfl (hfault what left)

/-! ## Steps in a row -/

/-- A token that has been taken, and another step after it. -/
theorem cons {inner : Step α} {p : Position} (h : ∀ p us, step (⟨kind, p⟩ :: us) = inner us)
    (hinner : Prompt F inner ts) : Prompt F step (⟨kind, p⟩ :: ts) where
  ok := by
    intro a rest hok
    rw [h] at hok
    obtain ⟨used, rfl, hused⟩ := hinner.ok a rest hok
    exact ⟨⟨kind, p⟩ :: used, rfl, fun rest' hrest' => (h p _).trans (hused rest' hrest')⟩
  expected := by
    intro what left herror
    rw [h] at herror
    obtain ⟨used, rfl, hasks⟩ := hinner.expected what left herror
    refine ⟨⟨kind, p⟩ :: used, rfl, fun left' hleft' => ?_, fun hlist => ?_⟩
    · exact (h p _).trans (hasks.fault left' hleft')
    · obtain ⟨more, hmore⟩ := hasks.viable fun hused => hlist (hused.append [kind])
      refine ⟨more, fun rest hrest => ?_⟩
      obtain ⟨a, ha⟩ := hmore rest hrest
      exact ⟨a, (h p _).trans ha⟩

end Prompt

/-- The first step asks for something, and the second one is still to come. -/
theorem Asks.andThen_first (h : Asks G first what used k)
    (hmore : ∀ a, Completes F (second a) more)
    (hfollow : ∀ rest, F (next rest) → G (next (more ++ rest))) :
    Asks F (first.andThen second) what used k where
  fault := fun left hleft => bind_eq_error_iff.2 (.inl (h.fault left hleft))
  viable := by
    intro hlist
    obtain ⟨more', hmore'⟩ := h.viable hlist
    refine ⟨more' ++ more, ?_⟩
    rw [← List.append_assoc]
    exact hmore'.andThen hmore hfollow

/-- The first step has read `used`, and the second asks for something. If that is its first token,
then the first step has looked at it already, and another one takes its place. -/
theorem Asks.andThen_second {a : α} {used' left : List Token}
    (hused : ∀ mid, next mid = next (used' ++ left) ∨ G (next mid) →
      first (used ++ mid) = .ok (a, mid))
    (h : Asks F (second a) what used' (next left)) (hmore : Completes F (second a) more)
    (hfollow : ∀ rest, F (next rest) → G (next (more ++ rest))) :
    Asks F (first.andThen second) what (used ++ used') (next left) where
  fault := by
    intro left' hleft'
    rw [List.append_assoc]
    have hfirst := hused _ (.inl (next_append_congr used' hleft'))
    exact bind_eq_error_iff.2 (.inr ⟨_, hfirst, h.fault left' hleft'⟩)
  viable := by
    intro hlist
    by_cases hnil : used' = []
    · subst hnil
      refine ⟨more, fun rest hrest => ?_⟩
      obtain ⟨b, hb⟩ := hmore rest hrest
      rw [List.append_nil, List.append_assoc]
      exact ⟨b, bind_eq_ok_iff.2 ⟨_, hused _ (.inr (hfollow rest hrest)), hb⟩⟩
    · have hlist' : ¬InLongList (kinds used') := by
        intro hused'
        have hfront := hused'.append (kinds used)
        rw [← List.map_append] at hfront
        exact hlist hfront
      obtain ⟨more', hmore'⟩ := h.viable hlist'
      refine ⟨more', fun rest hrest => ?_⟩
      obtain ⟨b, hb⟩ := hmore' rest hrest
      rw [List.append_assoc] at hb
      have hfirst := hused _ (.inl (next_append hnil (more' ++ rest) left))
      rw [List.append_assoc, List.append_assoc]
      exact ⟨b, bind_eq_ok_iff.2 ⟨_, hfirst, hb⟩⟩

namespace Prompt

/-- Steps in a row. The tokens `more` bring the second one to its end, and may follow the first. If
the second may read nothing, then whatever follows it may follow the first. -/
theorem bind (hfirst : Prompt G first ts) (more : List Token)
    (hmore : ∀ a, Completes F (second a) more)
    (hfollow : ∀ rest, F (next rest) → G (next (more ++ rest)))
    (hstay : (∀ k, F k → G k) ∨ ∀ a, Takes (second a))
    (hsecond : ∀ a mid, first ts = .ok (a, mid) → Prompt F (second a) mid) :
    Prompt F (first.andThen second) ts where
  ok := by
    intro b rest hok
    obtain ⟨⟨a, mid⟩, ha, hb⟩ := bind_eq_ok_iff.1 hok
    obtain ⟨used, rfl, hused⟩ := hfirst.ok a mid ha
    obtain ⟨used', rfl, hused'⟩ := (hsecond a mid ha).ok b rest hb
    refine ⟨used ++ used', by rw [List.append_assoc], fun rest' hrest' => ?_⟩
    have hnext : next (used' ++ rest') = next (used' ++ rest) ∨ G (next (used' ++ rest')) := by
      by_cases hnil : used' = []
      · subst hnil
        refine hrest'.imp_right fun hF => ?_
        exact hstay.elim (fun hsub => hsub _ hF) fun htakes => absurd hb (htakes a rest b)
      · exact .inl (next_append hnil rest' rest)
    rw [List.append_assoc]
    exact bind_eq_ok_iff.2 ⟨_, hused _ hnext, hused' rest' hrest'⟩
  expected := by
    intro what left herror
    rcases bind_eq_error_iff.1 herror with hfault | ⟨⟨a, mid⟩, ha, hfault⟩
    · obtain ⟨used, hts, hasks⟩ := hfirst.expected what left hfault
      exact ⟨used, hts, hasks.andThen_first hmore hfollow⟩
    · obtain ⟨used, rfl, hused⟩ := hfirst.ok a mid ha
      obtain ⟨used', rfl, hasks⟩ := (hsecond a mid ha).expected what left hfault
      exact ⟨used ++ used', by rw [List.append_assoc],
        hasks.andThen_second hused (hmore a) hfollow⟩

/-- Steps in a row, where anything may come after the first. -/
theorem andThen (hfirst : Prompt anything first ts) (more : List Token)
    (hmore : ∀ a, Completes F (second a) more)
    (hsecond : ∀ a mid, first ts = .ok (a, mid) → Prompt F (second a) mid) :
    Prompt F (first.andThen second) ts :=
  hfirst.bind more hmore (fun _ _ => trivial) (.inl fun _ _ => trivial) hsecond

/-- Steps in a row, where the second needs no more tokens. -/
theorem andMaybe (hfirst : Prompt F first ts) (hmore : ∀ a, Completes F (second a) [])
    (hsecond : ∀ a mid, first ts = .ok (a, mid) → Prompt F (second a) mid) :
    Prompt F (first.andThen second) ts :=
  hfirst.bind [] hmore (fun _ hrest => hrest) (.inl fun _ hk => hk) hsecond

/-- What a step makes of what it read does not matter. -/
theorem map (h : Prompt F step ts) (f : α → β) : Prompt F (step.map f) ts :=
  h.andMaybe (fun a _ _ => ⟨f a, rfl⟩) fun a _ _ =>
    pass anything (f a) trivial (fun _ _ => trivial) fun _ _ => rfl

end Prompt

end Parser

end NetQuery
