import Mathlib.Data.Set.List
import NetQuery.Proofs.Compiling
import NetQuery.Proofs.Timestamps

/-!
# Tags and parameters

A literal is bound in two steps: a tag is inferred from the literal and the column that it is
compared with, and then the literal is bound with that tag. The first step looks at the first
element of a list only, the second at all of them. Here the two are shown to fit: a literal with an
inferred tag is bound as it stands, unless the elements of a list differ in kind or a text should be
a timestamp and is none.
-/

namespace NetQuery

/-! ## The first that is different -/

section FirstWithout

variable {α : Type} {P : α → Prop} {x : α} {xs : List α}

/-- `x` is the first of `xs` that does not have the property. -/
def FirstWithout (P : α → Prop) (xs : List α) (x : α) : Prop :=
  ∃ before after, xs = before ++ x :: after ∧ (∀ y ∈ before, P y) ∧ ¬ P x

theorem not_firstWithout_nil : ¬ FirstWithout P [] x := by
  rintro ⟨before, after, h, -⟩
  simp at h

theorem firstWithout_cons_iff {y : α} :
    FirstWithout P (y :: xs) x ↔ (¬ P y ∧ x = y) ∨ (P y ∧ FirstWithout P xs x) := by
  constructor
  · rintro ⟨before, after, h, hbefore, hx⟩
    cases before with
    | nil =>
      obtain ⟨rfl, rfl⟩ := List.cons.inj h
      exact Or.inl ⟨hx, rfl⟩
    | cons z before =>
      obtain ⟨rfl, rfl⟩ := List.cons.inj h
      obtain ⟨hy, hbefore⟩ := List.forall_mem_cons.1 hbefore
      exact Or.inr ⟨hy, before, after, rfl, hbefore, hx⟩
  · rintro (⟨hy, rfl⟩ | ⟨hy, before, after, rfl, hbefore, hx⟩)
    · exact ⟨[], xs, rfl, by simp, hy⟩
    · exact ⟨y :: before, after, rfl, List.forall_mem_cons.2 ⟨hy, hbefore⟩, hx⟩

theorem exists_firstWithout_iff : (∃ x, FirstWithout P xs x) ↔ ¬ ∀ x ∈ xs, P x := by
  induction xs with
  | nil => simp [not_firstWithout_nil]
  | cons y xs ih =>
    simp only [firstWithout_cons_iff, exists_or, exists_and_left, exists_eq, and_true, ih,
      List.forall_mem_cons]
    tauto

end FirstWithout

/-! ## Timestamps -/

theorem normalizeTimestamp_eq_ok_iff {s standard : String} : normalizeTimestamp s = .ok standard ↔
    Time.Timestamp.normalize? s = some standard := by
  unfold normalizeTimestamp
  cases Time.Timestamp.normalize? s <;> simp

theorem normalizeTimestamp_eq_error_iff {s : String} {e : BindError} :
    normalizeTimestamp s = .error e ↔ ¬ Time.IsRfc3339 s ∧ e = .invalidTimestamp s := by
  rw [← Time.Timestamp.exists_normalize?_iff]
  unfold normalizeTimestamp
  cases Time.Timestamp.normalize? s with
  | none => simp [eq_comm]
  | some standard => simp

theorem normalizeTimestamps_eq_ok_iff {texts standards : List String} :
    normalizeTimestamps texts = .ok standards ↔
      List.Forall₂ (fun s standard => Time.Timestamp.normalize? s = some standard) texts
        standards := by
  induction texts generalizing standards with
  | nil => simp [normalizeTimestamps, eq_comm]
  | cons s texts ih =>
    simp only [normalizeTimestamps, bind_eq_ok_iff, normalizeTimestamp_eq_ok_iff, ih]
    constructor
    · rintro ⟨standard, hs, rest, hrest, h⟩
      cases h
      exact .cons hs hrest
    · intro h
      cases h with
      | cons hs hrest => exact ⟨_, hs, _, hrest, rfl⟩

/-- Timestamps are read up to the first text that is none. -/
theorem normalizeTimestamps_eq_error_iff {texts : List String} {e : BindError} :
    normalizeTimestamps texts = .error e ↔
      ∃ s, FirstWithout Time.IsRfc3339 texts s ∧ e = .invalidTimestamp s := by
  induction texts with
  | nil => simp [normalizeTimestamps, not_firstWithout_nil]
  | cons s texts ih =>
    have hok : (∃ standard, normalizeTimestamp s = .ok standard) ↔ Time.IsRfc3339 s := by
      simp only [normalizeTimestamp_eq_ok_iff, Time.Timestamp.exists_normalize?_iff]
    simp only [normalizeTimestamps, bind_eq_error_iff, normalizeTimestamp_eq_error_iff, ih,
      firstWithout_cons_iff, reduceCtorEq, and_false, exists_false, or_false, exists_and_right, hok]
    constructor
    · rintro (⟨hs, rfl⟩ | ⟨hs, t, ht, rfl⟩)
      · exact ⟨s, Or.inl ⟨hs, rfl⟩, rfl⟩
      · exact ⟨t, Or.inr ⟨hs, ht⟩, rfl⟩
    · rintro ⟨t, ⟨hs, rfl⟩ | ⟨hs, ht⟩, rfl⟩
      · exact Or.inl ⟨hs, rfl⟩
      · exact Or.inr ⟨hs, t, ht, rfl⟩

theorem exists_normalizeTimestamps_iff {texts : List String} :
    (∃ standards, normalizeTimestamps texts = .ok standards) ↔ ∀ s ∈ texts, Time.IsRfc3339 s := by
  rw [← not_iff_not, ← exists_firstWithout_iff]
  cases hread : normalizeTimestamps texts with
  | error e =>
    obtain ⟨s, hs, -⟩ := normalizeTimestamps_eq_error_iff.1 hread
    simpa using ⟨s, hs⟩
  | ok standards =>
    have hnone : ∀ s, ¬ FirstWithout Time.IsRfc3339 texts s := by
      intro s hs
      rw [normalizeTimestamps_eq_error_iff.2 ⟨s, hs, rfl⟩] at hread
      cases hread
    simpa using hnone

/-! ## Arrays -/

theorem checkUniform_of_forall {first : Value} {rest : List Value}
    (h : ∀ v ∈ rest, v.kind = first.kind) : checkUniform (first :: rest) = .ok () := by
  have hfind : rest.find? (fun item => item.kind ≠ first.kind) = none :=
    List.find?_eq_none.2 (by simpa using h)
  simp only [checkUniform, hfind]

theorem checkUniform_of_firstWithout {first other : Value} {rest : List Value}
    (h : FirstWithout (fun v => v.kind = first.kind) rest other) :
    checkUniform (first :: rest) = .error (.mixedArray first.kind other.kind) := by
  obtain ⟨before, after, rfl, hbefore, hother⟩ := h
  have hfind : (before ++ other :: after).find? (fun item => item.kind ≠ first.kind) =
      some other :=
    List.find?_eq_some_iff_append.2
      ⟨by simpa using hother, before, after, rfl, by simpa using hbefore⟩
  simp only [checkUniform, hfind]

theorem arrayTexts_map (texts : List String) : arrayTexts (texts.map .text) = .ok texts := by
  induction texts with
  | nil => rfl
  | cons s texts ih => simp [arrayTexts, ih, Except.map]

theorem arrayInts_map (numbers : List Int) : arrayInts (numbers.map .int) = .ok numbers := by
  induction numbers with
  | nil => rfl
  | cons n numbers ih => simp [arrayInts, ih, Except.map]

theorem exists_texts {items : List Value} (h : ∀ v ∈ items, v.kind = .text) :
    ∃ texts : List String, texts.map .text = items := by
  have hrange : items ∈ Set.range (List.map Value.text) := by
    rw [Set.range_list_map]
    intro v hv
    cases v with
    | text s => exact ⟨s, rfl⟩
    | _ => cases h _ hv
  exact hrange

theorem exists_ints {items : List Value} (h : ∀ v ∈ items, v.kind = .int) :
    ∃ numbers : List Int, numbers.map .int = items := by
  have hrange : items ∈ Set.range (List.map Value.int) := by
    rw [Set.range_list_map]
    intro v hv
    cases v with
    | int n => exact ⟨n, rfl⟩
    | _ => cases h _ hv
  exact hrange

/-! ## Binding with an inferred tag -/

/-- The parameter holds the value itself. Only an integer that is bound as a float and a text that
is bound as a timestamp are written in another form. -/
inductive Param.Holds : Param → Value → Prop where
  | text (s : String) : Holds (.text s) (.text s)
  | timestamp {s standard : String} (h : Time.Timestamp.normalize? s = some standard) :
      Holds (.timestamptz standard) (.text s)
  | bool (flag : Bool) : Holds (.bool flag) (.bool flag)
  | int (n : Int) : Holds (.int n) (.int n)
  | widened (n : Int) : Holds (.float (Number.ofInt n)) (.int n)
  | float (x : Float) : Holds (.float x) (.float x)
  | texts (texts : List String) : Holds (.textArray texts) (.list (texts.map .text))
  | ints (numbers : List Int) : Holds (.intArray numbers) (.list (numbers.map .int))

/-- Why a value cannot be bound although a tag was inferred for it. -/
inductive Value.Refused : Value → ParamType → BindError → Prop where
  | mixed {first other : Value} {rest : List Value} (type : ParamType)
      (h : FirstWithout (fun v => v.kind = first.kind) rest other) :
      Refused (.list (first :: rest)) type (.mixedArray first.kind other.kind)
  | timestamp {s : String} (h : ¬ Time.IsRfc3339 s) :
      Refused (.text s) .timestamptz (.invalidTimestamp s)

section Infer

variable {value : Value} {column : Option ColumnType} {type : ParamType}

/-- A list has a tag if it starts with a text or with an integer. -/
theorem infer_list_cases {items : List Value}
    (h : ParamType.infer (.list items) column = .ok type) : ∃ first rest, items = first :: rest ∧
      ((type = .textArray ∧ first.kind = .text) ∨ (type = .intArray ∧ first.kind = .int)) := by
  unfold ParamType.infer at h
  split at h <;> simp_all [Value.kind]

theorem Value.Refused.bind_eq_error {e : BindError} (h : value.Refused type e)
    (htype : ParamType.infer value column = .ok type) : value.bind type = .error e := by
  cases h with
  | mixed type h =>
    obtain ⟨_, _, -, ⟨rfl, -⟩ | ⟨rfl, -⟩⟩ := infer_list_cases htype
    · rw [Value.bind, checkUniform_of_firstWithout h]
      rfl
    · rw [Value.bind, checkUniform_of_firstWithout h]
      rfl
  | timestamp h =>
    rw [Value.bind, normalizeTimestamp_eq_error_iff.2 ⟨h, rfl⟩]
    rfl

theorem Param.Holds.bind_eq_ok {param : Param} (h : param.Holds value)
    (htype : ParamType.infer value column = .ok param.type) :
    value.bind param.type = .ok param := by
  cases h with
  | text s => rfl
  | timestamp h =>
    rw [Param.type, Value.bind, normalizeTimestamp_eq_ok_iff.2 h]
    rfl
  | bool flag => rfl
  | int n => rfl
  | widened n => rfl
  | float x => rfl
  | texts texts =>
    cases texts with
    | nil => cases htype
    | cons s texts =>
      have huniform : checkUniform ((s :: texts).map .text) = .ok () :=
        checkUniform_of_forall (by simp [Value.kind])
      rw [Param.type, Value.bind, huniform, arrayTexts_map]
      rfl
  | ints numbers =>
    cases numbers with
    | nil => cases htype
    | cons n numbers =>
      have huniform : checkUniform ((n :: numbers).map .int) = .ok () :=
        checkUniform_of_forall (by simp [Value.kind])
      rw [Param.type, Value.bind, huniform, arrayInts_map]
      rfl

/-- A value with an inferred tag can be held by a parameter with that tag, or is refused. -/
theorem holds_or_refused (h : ParamType.infer value column = .ok type) :
    (∃ param : Param, param.type = type ∧ param.Holds value) ∨ ∃ e, value.Refused type e := by
  cases value with
  | text s =>
    by_cases hcolumn : column = some .timestamptz
    · simp only [ParamType.infer, if_pos hcolumn] at h
      cases h
      by_cases hs : Time.IsRfc3339 s
      · obtain ⟨standard, hstandard⟩ := Time.Timestamp.exists_normalize?_iff.2 hs
        exact Or.inl ⟨_, rfl, .timestamp hstandard⟩
      · exact Or.inr ⟨_, .timestamp hs⟩
    · simp only [ParamType.infer, if_neg hcolumn] at h
      cases h
      exact Or.inl ⟨_, rfl, .text s⟩
  | bool flag =>
    cases h
    exact Or.inl ⟨_, rfl, .bool flag⟩
  | int n =>
    simp only [ParamType.infer] at h
    split at h
    next =>
      cases h
      exact Or.inl ⟨_, rfl, .widened n⟩
    next =>
      cases h
      exact Or.inl ⟨_, rfl, .int n⟩
  | float x =>
    cases h
    exact Or.inl ⟨_, rfl, .float x⟩
  | keyword word => cases h
  | list items =>
    -- The tag tells only of the first element. If the others are of its kind, so is the whole list.
    obtain ⟨first, rest, rfl, hfirst⟩ := infer_list_cases h
    by_cases hrest : ∀ v ∈ rest, v.kind = first.kind
    · left
      rcases hfirst with ⟨rfl, htext⟩ | ⟨rfl, hint⟩
      · rw [htext] at hrest
        obtain ⟨texts, htexts⟩ := exists_texts (List.forall_mem_cons.2 ⟨htext, hrest⟩)
        exact ⟨.textArray texts, rfl, htexts ▸ .texts texts⟩
      · rw [hint] at hrest
        obtain ⟨numbers, hnumbers⟩ := exists_ints (List.forall_mem_cons.2 ⟨hint, hrest⟩)
        exact ⟨.intArray numbers, rfl, hnumbers ▸ .ints numbers⟩
    · obtain ⟨other, hother⟩ := exists_firstWithout_iff.2 hrest
      exact Or.inr ⟨_, .mixed type hother⟩
  | null => cases h

theorem bind_eq_ok_iff_holds (h : ParamType.infer value column = .ok type) {param : Param} :
    value.bind type = .ok param ↔ param.type = type ∧ param.Holds value := by
  constructor
  · intro hbind
    rcases holds_or_refused h with ⟨held, rfl, hheld⟩ | ⟨e, he⟩
    · obtain rfl : held = param := Except.ok.inj ((hheld.bind_eq_ok h).symm.trans hbind)
      exact ⟨rfl, hheld⟩
    · rw [he.bind_eq_error h] at hbind
      cases hbind
  · rintro ⟨rfl, hheld⟩
    exact hheld.bind_eq_ok h

theorem bind_eq_error_iff_refused (h : ParamType.infer value column = .ok type) {e : BindError} :
    value.bind type = .error e ↔ value.Refused type e := by
  constructor
  · intro hbind
    rcases holds_or_refused h with ⟨held, rfl, hheld⟩ | ⟨e', he'⟩
    · rw [hheld.bind_eq_ok h] at hbind
      cases hbind
    · obtain rfl : e' = e := Except.error.inj ((he'.bind_eq_error h).symm.trans hbind)
      exact he'
  · intro he
    exact he.bind_eq_error h

end Infer

/-! ## Memberships -/

/-- What a membership in timestamps makes of a parameter: texts are brought to their standard forms
one by one, and all else stays as it is. -/
inductive Param.Standardized : Param → Param → Prop where
  | texts {texts standards : List String}
      (h : List.Forall₂ (fun s standard => Time.Timestamp.normalize? s = some standard) texts
        standards) : Standardized (.textArray texts) (.textArray standards)
  | other {param : Param} (h : param.type ≠ .textArray) : Standardized param param

section Membership

variable {value : Value} {column : Option ColumnType} {type : ParamType}

/-- A text array that is compared with timestamps is read on, element by element. -/
theorem bindList_of_texts (h : ParamType.infer value (some .timestamptz) = .ok type)
    {texts : List String} (hbind : value.bind type = .ok (.textArray texts)) :
    value.bindList (some .timestamptz) = (normalizeTimestamps texts).map .textArray := by
  rw [Value.bindList, h]
  simp only [bind, Except.bind, hbind]
  rfl

theorem bindList_of_error (h : ParamType.infer value column = .ok type) {e : BindError}
    (hbind : value.bind type = .error e) : value.bindList column = .error e := by
  rw [Value.bindList, h]
  simp only [bind, Except.bind, hbind]

/-- Every other parameter is the operand as it stands. -/
theorem bindList_of_ok (h : ParamType.infer value column = .ok type) {param : Param}
    (hbind : value.bind type = .ok param)
    (hne : column = some .timestamptz → param.type ≠ .textArray) :
    value.bindList column = .ok param := by
  have helement : column.map ColumnType.element = some .timestamptz →
      column = some .timestamptz := by
    rintro helement
    obtain ⟨columnType, rfl, htype⟩ := Option.map_eq_some_iff.1 helement
    cases columnType <;> cases htype
    rfl
  rw [Value.bindList, h]
  simp only [bind, Except.bind, hbind]
  split
  next hcolumn => exact absurd rfl (hne (helement hcolumn))
  next => rfl

theorem bindList_eq_bind (h : ParamType.infer value column = .ok type)
    (hcolumn : column ≠ some .timestamptz) : value.bindList column = value.bind type := by
  cases hbind : value.bind type with
  | error e => exact bindList_of_error h hbind
  | ok param => exact bindList_of_ok h hbind fun h => absurd h hcolumn

theorem bindList_eq_ok_iff (h : ParamType.infer value (some .timestamptz) = .ok type)
    {param : Param} : value.bindList (some .timestamptz) = .ok param ↔
      ∃ bound, value.bind type = .ok bound ∧ bound.Standardized param := by
  cases hbind : value.bind type with
  | error e => simp [bindList_of_error h hbind]
  | ok bound =>
    by_cases harray : bound.type = .textArray
    · obtain ⟨texts, rfl⟩ : ∃ texts, bound = .textArray texts := by
        cases bound <;> cases harray
        exact ⟨_, rfl⟩
      rw [bindList_of_texts h hbind, map_eq_ok_iff]
      simp only [normalizeTimestamps_eq_ok_iff, Except.ok.injEq, exists_eq_left']
      constructor
      · rintro ⟨standards, hstandards, rfl⟩
        exact .texts hstandards
      · intro hstandardized
        cases hstandardized with
        | texts hstandards => exact ⟨_, hstandards, rfl⟩
        | other hne => exact absurd rfl hne
    · rw [bindList_of_ok h hbind fun _ => harray]
      simp only [Except.ok.injEq, exists_eq_left']
      constructor
      · rintro rfl
        exact .other harray
      · intro hstandardized
        cases hstandardized with
        | texts => exact absurd rfl harray
        | other => rfl

theorem bindList_eq_error_iff (h : ParamType.infer value (some .timestamptz) = .ok type)
    {e : BindError} : value.bindList (some .timestamptz) = .error e ↔ value.bind type = .error e ∨
      ∃ texts s, value.bind type = .ok (.textArray texts) ∧ FirstWithout Time.IsRfc3339 texts s ∧
        e = .invalidTimestamp s := by
  cases hbind : value.bind type with
  | error e' => simp [bindList_of_error h hbind]
  | ok bound =>
    by_cases harray : bound.type = .textArray
    · obtain ⟨texts, rfl⟩ : ∃ texts, bound = .textArray texts := by
        cases bound <;> cases harray
        exact ⟨_, rfl⟩
      rw [bindList_of_texts h hbind, map_eq_error_iff, normalizeTimestamps_eq_error_iff]
      simp
    · rw [bindList_of_ok h hbind fun _ => harray]
      have hne : ∀ texts, bound ≠ .textArray texts := by
        rintro texts rfl
        exact harray rfl
      simp [hne]

end Membership

/-- A value for which a tag is inferred is bound with that tag and as it stands; it is refused only
if it is a list whose elements differ in kind, and then the first element and the first that differs
are named, or if it is a text that should be a timestamp and is none. A membership in timestamps
goes on to read the texts, if there are texts, and fails at the first that is no timestamp. -/
theorem Value.bind_of_infer {value : Value} {column : Option ColumnType} {type : ParamType}
    (h : ParamType.infer value column = .ok type) :
    (∀ param, value.bind type = .ok param ↔ param.type = type ∧ param.Holds value) ∧
    (∀ e, value.bind type = .error e ↔ value.Refused type e) ∧
    (column ≠ some .timestamptz → value.bindList column = value.bind type) ∧
    (column = some .timestamptz →
      (∀ param, value.bindList column = .ok param ↔
        ∃ bound, value.bind type = .ok bound ∧ bound.Standardized param) ∧
      (∀ e, value.bindList column = .error e ↔ value.bind type = .error e ∨
        ∃ texts s, value.bind type = .ok (.textArray texts) ∧ FirstWithout Time.IsRfc3339 texts s ∧
          e = .invalidTimestamp s) ∧
      ∀ texts, value.bind type = .ok (.textArray texts) →
        ((∃ param, value.bindList column = .ok param) ↔ ∀ s ∈ texts, Time.IsRfc3339 s)) := by
  refine ⟨fun _ => bind_eq_ok_iff_holds h, fun _ => bind_eq_error_iff_refused h,
    bindList_eq_bind h, ?_⟩
  rintro rfl
  refine ⟨fun _ => bindList_eq_ok_iff h, fun _ => bindList_eq_error_iff h, fun texts hbind => ?_⟩
  rw [bindList_of_texts h hbind, ← exists_normalizeTimestamps_iff]
  simp [map_eq_ok_iff]

/-- Two texts of one kind, of which the second is no timestamp. -/
theorem Value.bind_of_infer_garbage : ∃ value : Value,
    value = .list [.text "2025-01-01T12:00:00+02:00", .text "garbage"] ∧
    ParamType.infer value (some .timestamptz) = .ok .textArray ∧
    (∃ param : Param, value.bind .textArray = .ok param ∧ param.Holds value) ∧
    value.bindList (some .timestamptz) = .error (.invalidTimestamp "garbage") ∧
    FirstWithout Time.IsRfc3339 ["2025-01-01T12:00:00+02:00", "garbage"] "garbage" := by
  obtain ⟨value, hvalue⟩ : ∃ value : Value,
    value = .list [.text "2025-01-01T12:00:00+02:00", .text "garbage"] := ⟨_, rfl⟩
  have htype : ParamType.infer value (some .timestamptz) = .ok .textArray := by
    rw [hvalue]
    rfl
  have hbind : value.bind .textArray =
      .ok (.textArray ["2025-01-01T12:00:00+02:00", "garbage"]) := by
    rw [hvalue]
    rfl
  have hlist : value.bindList (some .timestamptz) = .error (.invalidTimestamp "garbage") := by
    have hread : normalizeTimestamps ["2025-01-01T12:00:00+02:00", "garbage"] =
        .error (.invalidTimestamp "garbage") := by
      decide +kernel
    rw [bindList_of_texts htype hbind, hread]
    rfl
  obtain ⟨hok, -, -, hmember⟩ := Value.bind_of_infer htype
  obtain ⟨-, herror, -⟩ := hmember rfl
  refine ⟨value, hvalue, htype, ⟨_, hbind, ((hok _).1 hbind).2⟩, hlist, ?_⟩
  rcases (herror _).1 hlist with hfail | ⟨texts, s, htexts, hfirst, hs⟩
  · rw [hbind] at hfail
    cases hfail
  · rw [hbind] at htexts
    cases htexts
    cases hs
    exact hfirst

/-- Integers are not read as timestamps, and so a membership of them is bound although no element of
it is a timestamp. -/
theorem Value.bindList_ints : ∃ (items : List Value) (param : Param),
    (Value.list items).bindList (some .timestamptz) = .ok param ∧ param = .intArray [1, 2] ∧
    ¬ ∀ v ∈ items, ∃ s, v = .text s ∧ Time.IsRfc3339 s :=
  ⟨[.int 1, .int 2], .intArray [1, 2], rfl, rfl, by simp⟩

end NetQuery
