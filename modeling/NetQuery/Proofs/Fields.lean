import NetQuery.Proofs.Words
import NetQuery.Query.Field

/-!
# Fields of a query

A query keeps a field as one text, and the compiler takes that text apart again. Nothing is lost on
the way: a column comes back as itself, and a call comes back with its function in small letters and
its arguments as they were written.
-/

namespace NetQuery

/-! ## Cutting and joining -/

namespace Text

theorem cut_of_not_mem {mark : Char} {cs : List Char} (h : mark ∉ cs) : cut mark cs = none := by
  induction cs with
  | nil => rfl
  | cons c cs ih =>
    obtain ⟨hc, hcs⟩ : mark ≠ c ∧ mark ∉ cs := by simpa using h
    rw [cut, if_neg (Ne.symm hc), ih hcs]
    rfl

theorem cut_append {mark : Char} {before : List Char} (h : mark ∉ before) (after : List Char) :
    cut mark (before ++ mark :: after) = some (before, after) := by
  induction before with
  | nil => simp [cut]
  | cons c before ih =>
    obtain ⟨hc, hbefore⟩ : mark ≠ c ∧ mark ∉ before := by simpa using h
    rw [List.cons_append, cut, if_neg (Ne.symm hc), ih hbefore]
    rfl

theorem dropFinal_append (mark : Char) (cs : List Char) :
    dropFinal mark (cs ++ [mark]) = some cs := by
  induction cs with
  | nil => simp [dropFinal]
  | cons c cs ih =>
    cases cs with
    | nil => simp [dropFinal]
    | cons d cs =>
      rw [List.cons_append, List.cons_append, dropFinal, ← List.cons_append, ih]
      rfl

theorem splitOn_of_not_mem {mark : Char} {cs : List Char} (h : mark ∉ cs) :
    splitOn mark cs = [cs] := by
  induction cs with
  | nil => rfl
  | cons c cs ih =>
    obtain ⟨hc, hcs⟩ : mark ≠ c ∧ mark ∉ cs := by simpa using h
    rw [splitOn, if_neg (Ne.symm hc), ih hcs]

theorem splitOn_append {mark : Char} {before : List Char} (h : mark ∉ before)
    (after : List Char) :
    splitOn mark (before ++ mark :: after) = before :: splitOn mark after := by
  induction before with
  | nil => simp [splitOn]
  | cons c before ih =>
    obtain ⟨hc, hbefore⟩ : mark ≠ c ∧ mark ∉ before := by simpa using h
    rw [List.cons_append, splitOn, if_neg (Ne.symm hc), ih hbefore]

theorem dropWhile_of_no_blank {cs : List Char} (h : ∀ c ∈ cs, isBlank c = false) :
    cs.dropWhile isBlank = cs := by
  cases cs with
  | nil => rfl
  | cons c cs => rw [List.dropWhile_cons, h c List.mem_cons_self, if_neg (by decide)]

theorem trimChars_of_no_blank {cs : List Char} (h : ∀ c ∈ cs, isBlank c = false) :
    trimChars cs = cs := by
  rw [trimChars, dropWhile_of_no_blank h, dropWhile_of_no_blank (by simpa using h),
    List.reverse_reverse]

theorem trimChars_eq_nil_iff {cs : List Char} :
    trimChars cs = [] ↔ ∀ c ∈ cs, isBlank c := by
  rw [trimChars, List.reverse_eq_nil_iff, List.dropWhile_eq_nil_iff]
  constructor
  · intro h c hc
    rw [← List.takeWhile_append_dropWhile (p := isBlank) (l := cs)] at hc
    rcases List.mem_append.1 hc with hc | hc
    · exact List.mem_takeWhile_imp hc
    · exact h c (List.mem_reverse.2 hc)
  · intro h c hc
    exact h c ((List.dropWhile_sublist _).mem (List.mem_reverse.1 hc))

theorem splitOn_ne_nil (mark : Char) (cs : List Char) : splitOn mark cs ≠ [] := by
  cases cs with
  | nil => simp [splitOn]
  | cons c cs =>
    rw [splitOn]
    split
    · simp
    · split <;> simp

theorem toList_join_cons (separator s : String) {rest : List String} (h : rest ≠ []) :
    (join separator (s :: rest)).toList =
      s.toList ++ (separator.toList ++ (join separator rest).toList) := by
  obtain ⟨t, rest, rfl⟩ := List.exists_cons_of_ne_nil h
  simp [join]

theorem mem_join {separator : String} {ss : List String} {c : Char}
    (h : c ∈ (join separator ss).toList) : c ∈ separator.toList ∨ ∃ s ∈ ss, c ∈ s.toList := by
  induction ss with
  | nil => simp [join] at h
  | cons s ss ih =>
    by_cases hnil : ss = []
    · subst hnil
      exact Or.inr ⟨s, List.mem_cons_self, h⟩
    · rw [toList_join_cons separator s hnil] at h
      rcases List.mem_append.1 h with hs | h
      · exact Or.inr ⟨s, List.mem_cons_self, hs⟩
      · rcases List.mem_append.1 h with hseparator | hrest
        · exact Or.inl hseparator
        · rcases ih hrest with hseparator | ⟨t, ht, hc⟩
          · exact Or.inl hseparator
          · exact Or.inr ⟨t, List.mem_cons_of_mem _ ht, hc⟩

/-- A run of characters of one kind ends where another kind begins. -/
theorem takeWhile_append_of_stop {p : Char → Bool} {run rest : List Char} (hrun : ∀ c ∈ run, p c)
    (hrest : ∀ c ∈ rest.head?, p c = false) : (run ++ rest).takeWhile p = run := by
  rw [List.takeWhile_append_of_pos hrun]
  cases rest with
  | nil => simp
  | cons c rest => simp [hrest c rfl]

/-- A blank after a mark is trimmed away from the part that it starts. -/
theorem map_trimChars_splitOn_blank {mark c : Char} (hc : isBlank c) (hmark : mark ≠ c)
    (cs : List Char) :
    (splitOn mark (c :: cs)).map trimChars = (splitOn mark cs).map trimChars := by
  have htrim : ∀ ds, trimChars (c :: ds) = trimChars ds := by
    intro ds
    rw [trimChars, List.dropWhile_cons, if_pos hc, trimChars]
  rw [splitOn, if_neg (Ne.symm hmark)]
  cases h : splitOn mark cs with
  | nil => exact absurd h (splitOn_ne_nil mark cs)
  | cons part parts => simp [htrim]

end Text

/-! ## Names inside a field -/

namespace Lexer

variable {w : String}

theorem IsName.not_mem (h : IsName w) {c : Char} (hc : continuesWord c = false) : c ∉ w.toList := by
  intro hmem
  have htrue := h.word c hmem
  rw [hc] at htrue
  exact absurd htrue (by decide)

theorem toList_lower (w : String) : (Text.lower w).toList = w.toList.map Char.toLower := by
  simp [Text.lower]

theorem lower_lower (w : String) : Text.lower (Text.lower w) = Text.lower w := by
  simp [Text.lower, Function.comp_def, Char.toLower_toLower_eq_toLower]

theorem IsName.word_lower (h : IsName w) : ∀ c ∈ (Text.lower w).toList, continuesWord c := by
  rw [toList_lower]
  intro c hc
  obtain ⟨d, hd, rfl⟩ := List.mem_map.1 hc
  exact continuesWord_toLower (h.word d hd)

/-- A name in small letters is still a name, since keywords are read in any case. -/
theorem IsName.lower (h : IsName w) : IsName (Text.lower w) where
  ne_nil := by simpa [toList_lower] using h.ne_nil
  start := by
    intro c hc
    rw [toList_lower, List.head?_map] at hc
    obtain ⟨d, hd, rfl⟩ := Option.map_eq_some_iff.1 hc
    exact startsWord_toLower (h.start d hd)
  word := h.word_lower
  noKeyword := by
    simpa only [Keyword.ofWord?, Text.agree, lower_lower] using h.noKeyword

theorem IsName.trim (h : IsName w) : Text.trimChars w.toList = w.toList :=
  Text.trimChars_of_no_blank fun c hc => isBlank_eq_false_of_continuesWord (h.word c hc)

end Lexer

namespace FieldRef

open Lexer (IsName)

/-- The arguments of a call are found again between the commas. -/
theorem map_trimChars_splitOn_join {args : List String} (hne : args ≠ [])
    (h : ∀ arg ∈ args, IsName arg) :
    (Text.splitOn ',' (Text.join ", " args).toList).map Text.trimChars =
      args.map String.toList := by
  induction args with
  | nil => exact absurd rfl hne
  | cons arg args ih =>
    have harg : IsName arg := h arg List.mem_cons_self
    have hcomma : ',' ∉ arg.toList := harg.not_mem (by decide)
    cases args with
    | nil =>
      rw [Text.join, Text.splitOn_of_not_mem hcomma]
      simp [harg.trim]
    | cons arg' args =>
      have ih' := ih (by simp) fun a ha => h a (List.mem_cons_of_mem _ ha)
      have hjoin : (Text.join ", " (arg :: arg' :: args)).toList =
          arg.toList ++ ',' :: ' ' :: (Text.join ", " (arg' :: args)).toList :=
        Text.toList_join_cons ", " arg (by simp)
      rw [hjoin, Text.splitOn_append hcomma, List.map_cons,
        Text.map_trimChars_splitOn_blank (by decide) (by decide), ih', harg.trim]
      rfl

theorem arguments_join {args : List String} (hne : args ≠ []) (h : ∀ arg ∈ args, IsName arg) :
    arguments (Text.join ", " args).toList = args := by
  have hfilter : (args.map String.toList).filter (fun arg => !arg.isEmpty) =
      args.map String.toList := by
    rw [List.filter_eq_self]
    intro cs hcs
    obtain ⟨arg, harg, rfl⟩ := List.mem_map.1 hcs
    simpa using (h arg harg).ne_nil
  rw [arguments, map_trimChars_splitOn_join hne h, hfilter, List.map_map]
  simp [Function.comp_def]

/-- A column comes back as itself. -/
theorem ofText_name {name : String} (h : IsName name) : ofText name = ⟨none, [name]⟩ := by
  rw [ofText, Text.cut_of_not_mem (h.not_mem (by decide))]

/-- A call comes back with its function in small letters and its arguments as written. -/
theorem ofText_call {name : String} {args : List String} (h : IsName name) (hne : args ≠ [])
    (hargs : ∀ arg ∈ args, IsName arg) :
    ofText (call name args) = ⟨some (Text.lower name), args⟩ := by
  have htext : (call name args).toList =
      (Text.lower name).toList ++ '(' :: ((Text.join ", " args).toList ++ [')']) := by
    simp [call]
  have hparen : '(' ∉ (Text.lower name).toList := by
    intro hmem
    have := h.word_lower _ hmem
    revert this
    decide
  have htrim : Text.trimChars (Text.lower name).toList = (Text.lower name).toList :=
    Text.trimChars_of_no_blank fun c hc =>
      Lexer.isBlank_eq_false_of_continuesWord (h.word_lower c hc)
  rw [ofText, htext, Text.cut_append hparen]
  simp only [Text.dropFinal_append, htrim, arguments_join hne hargs, String.ofList_toList]

end FieldRef

/-- What the text of a field is like that a query got from its tokens. -/
inductive IsField : String → Prop where
  | column {name : String} (h : Lexer.IsName name) : IsField name
  | call {name : String} {args : List String} (h : Lexer.IsName name) (hne : args ≠ [])
      (hargs : ∀ arg ∈ args, Lexer.IsName arg) : IsField (FieldRef.call name args)

end NetQuery
