import NetQuery.Proofs.Compiling

/-!
# Reading expressions back

An SQL engine gets a field as a column or as a call, in small letters. Two fields that are written
alike are the same up to the case of their letters, and what follows them is the same too: a word
ends where the next character cannot continue it, and neither a column nor a call is a beginning of
another. The same holds for the keys of an ordering.
-/

namespace NetQuery

/-! ## Reading from the left -/

/-- Two readings of a text agree on the run of characters that it starts with. -/
theorem span_unique {p : Char → Bool} {w w' r r' : List Char} (hw : ∀ c ∈ w, p c)
    (hw' : ∀ c ∈ w', p c) (hr : ∀ c ∈ r.head?, p c = false) (hr' : ∀ c ∈ r'.head?, p c = false)
    (h : w ++ r = w' ++ r') : w = w' ∧ r = r' := by
  obtain rfl : w = w' := by
    rw [← Text.takeWhile_append_of_stop hw hr, h, Text.takeWhile_append_of_stop hw' hr']
  exact ⟨rfl, List.append_cancel_left h⟩

/-- A code of which no word begins another is read in one way. -/
theorem code_unique {α : Type} {code : α → String} {a b : α} {r r' : List Char}
    (hcode : ∀ a b, (code a).toList <+: (code b).toList → a = b)
    (h : (code a).toList ++ r = (code b).toList ++ r') : a = b ∧ r = r' := by
  obtain rfl : a = b := by
    rcases List.append_eq_append_iff.1 h with ⟨t, ht, -⟩ | ⟨t, ht, -⟩
    · exact hcode a b ⟨t, ht.symm⟩
    · exact (hcode b a ⟨t, ht.symm⟩).symm
  exact ⟨rfl, List.append_cancel_left h⟩

/-- A code on a finite type is checked pair by pair. -/
theorem code_of_all {α : Type} [DecidableEq α] {all : List α} (hall : ∀ a, a ∈ all)
    {code : α → String} (h : (all.all fun a => all.all fun b =>
      !(code a).toList.isPrefixOf (code b).toList || decide (a = b)) = true) (a b : α)
    (hbegins : (code a).toList <+: (code b).toList) : a = b := by
  have hpair := List.all_eq_true.1 (List.all_eq_true.1 h a (hall a)) b (hall b)
  simpa [List.isPrefixOf_iff_prefix.2 hbegins] using hpair

/-! ## Fields -/

/-- Fields that are the same up to the case of ASCII letters, as texts and taken apart. -/
structure FieldsAlike (f f' : String) : Prop where
  text : Text.lower f = Text.lower f'
  function : (FieldRef.ofText f).function = (FieldRef.ofText f').function
  args : (FieldRef.ofText f).args.map Text.lower = (FieldRef.ofText f').args.map Text.lower

theorem lower_append (s t : String) : Text.lower (s ++ t) = Text.lower s ++ Text.lower t := by
  rw [← String.toList_inj]
  simp [Text.lower]

theorem lower_join (separator : String) (ss : List String) :
    Text.lower (Text.join separator ss) =
      Text.join (Text.lower separator) (ss.map Text.lower) := by
  fun_induction Text.join separator ss with
  | case1 => rfl
  | case2 s => rfl
  | case3 s t rest ih => simp only [lower_append, ih, List.map_cons, Text.join]

theorem fieldsAlike_column {name name' : String} (h : Lexer.IsName name)
    (h' : Lexer.IsName name') (heq : Text.lower name = Text.lower name') :
    FieldsAlike name name' := by
  refine ⟨heq, ?_, ?_⟩
  · rw [FieldRef.ofText_name h, FieldRef.ofText_name h']
  · rw [FieldRef.ofText_name h, FieldRef.ofText_name h', List.map_singleton, List.map_singleton,
      heq]

theorem fieldsAlike_call {name name' : String} {args args' : List String}
    (h : Lexer.IsName name) (h' : Lexer.IsName name') (hne : args ≠ []) (hne' : args' ≠ [])
    (hargs : ∀ arg ∈ args, Lexer.IsName arg) (hargs' : ∀ arg ∈ args', Lexer.IsName arg)
    (hname : Text.lower name = Text.lower name')
    (heq : args.map Text.lower = args'.map Text.lower) :
    FieldsAlike (FieldRef.call name args) (FieldRef.call name' args') := by
  refine ⟨?_, ?_, ?_⟩
  · simp only [FieldRef.call, lower_append, lower_join, hname, heq]
  · rw [FieldRef.ofText_call h hne hargs, FieldRef.ofText_call h' hne' hargs', hname]
  · rw [FieldRef.ofText_call h hne hargs, FieldRef.ofText_call h' hne' hargs', heq]

/-- The arguments of a call are read up to its closing parenthesis. -/
theorem arguments_unique {args args' : List String} {r r' : List Char} (hne : args ≠ [])
    (hne' : args' ≠ []) (hargs : ∀ arg ∈ args, Lexer.IsName arg)
    (hargs' : ∀ arg ∈ args', Lexer.IsName arg)
    (h : (Text.join ", " (args.map Text.lower)).toList ++ ')' :: r =
      (Text.join ", " (args'.map Text.lower)).toList ++ ')' :: r') :
    args.map Text.lower = args'.map Text.lower ∧ r = r' := by
  have hclose : ∀ r : List Char, ∀ c ∈ (')' :: r).head?, Lexer.continuesWord c = false := by
    rintro r c ⟨⟩
    decide
  have hcomma : ∀ r : List Char, ∀ c ∈ (',' :: r).head?, Lexer.continuesWord c = false := by
    rintro r c ⟨⟩
    decide
  have hmore : ∀ (arg next : String) (rest : List String) (r : List Char),
      (Text.join ", " ((arg :: next :: rest).map Text.lower)).toList ++ ')' :: r =
        (Text.lower arg).toList ++
          ',' :: ' ' :: ((Text.join ", " ((next :: rest).map Text.lower)).toList ++ ')' :: r) := by
    intro arg next rest r
    simp [Text.join]
  induction args generalizing args' with
  | nil => exact absurd rfl hne
  | cons arg rest ih =>
    have harg := (hargs arg List.mem_cons_self).word_lower
    obtain ⟨arg', rest', rfl⟩ := List.exists_cons_of_ne_nil hne'
    have harg' := (hargs' arg' List.mem_cons_self).word_lower
    cases rest with
    | nil =>
      cases rest' with
      | nil =>
        obtain ⟨hword, hr⟩ := span_unique harg harg' (hclose r) (hclose r') h
        exact ⟨by simpa using String.toList_inj.1 hword, (List.cons.inj hr).2⟩
      | cons next' rest' =>
        rw [hmore] at h
        obtain ⟨-, hr⟩ := span_unique harg harg' (hclose r) (hcomma _) h
        exact absurd (List.cons.inj hr).1 (by decide)
    | cons next rest =>
      rw [hmore] at h
      cases rest' with
      | nil =>
        obtain ⟨-, hr⟩ := span_unique harg harg' (hcomma _) (hclose r') h
        exact absurd (List.cons.inj hr).1 (by decide)
      | cons next' rest' =>
        rw [hmore] at h
        obtain ⟨hword, hr⟩ := span_unique harg harg' (hcomma _) (hcomma _) h
        obtain ⟨hrest, hr⟩ := ih (by simp) (by simp)
          (fun a ha => hargs a (List.mem_cons_of_mem _ ha))
          (fun a ha => hargs' a (List.mem_cons_of_mem _ ha)) (by simpa using hr)
        exact ⟨congrArg₂ List.cons (String.toList_inj.1 hword) hrest, hr⟩

/-! ## Dialects of SQL -/

/-- The dialects of the two SQL engines. -/
def Dialect.IsSql (d : Dialect) : Prop := d = .clickHouse ∨ d = .proton

theorem Backend.isSql_dialect {backend : Backend} (h : backend ≠ .arangoDb) :
    backend.dialect.IsSql := by
  cases backend with
  | clickHouse => exact Or.inl rfl
  | proton => exact Or.inr rfl
  | arangoDb => exact absurd rfl h

namespace Dialect.IsSql

variable {d : Dialect}

theorem column (hd : d.IsSql) (name : String) : d.column name = Text.lower name := by
  rcases hd with rfl | rfl <;> exact String.empty_append

/-- The function that a word of an SQL engine stands for. -/
def functionOf (word : String) : String :=
  if word = "toDate" ∨ word = "to_date" then "date" else word

/-- An SQL engine writes a function as a call, with one of four words. -/
theorem function_cases (hd : d.IsSql) {f : String} {form : FunctionForm}
    (h : d.function f = some form) :
    ∃ word ∈ ["toDate", "to_date", "lower", "upper"], form = .call word ∧ f = functionOf word := by
  rcases hd with rfl | rfl
  · simp only [Dialect.clickHouse, Dialect.sql] at h
    split at h <;> cases h
    · exact ⟨"toDate", by simp, rfl, by decide⟩
    · exact ⟨"lower", by simp, rfl, by decide⟩
    · exact ⟨"upper", by simp, rfl, by decide⟩
  · simp only [Dialect.proton, Dialect.sql] at h
    split at h <;> cases h
    · exact ⟨"to_date", by simp, rfl, by decide⟩
    · exact ⟨"lower", by simp, rfl, by decide⟩
    · exact ⟨"upper", by simp, rfl, by decide⟩

theorem function_word (hd : d.IsSql) {f word : String} (h : d.function f = some (.call word)) :
    word ∈ ["toDate", "to_date", "lower", "upper"] ∧ f = functionOf word := by
  obtain ⟨_, hmem, hform, hf⟩ := hd.function_cases h
  cases hform
  exact ⟨hmem, hf⟩

/-- The word for a function is a word, and not the one that a search starts with. -/
theorem word_of_mem {word : String} (h : word ∈ ["toDate", "to_date", "lower", "upper"]) :
    (∀ c ∈ word.toList, Lexer.continuesWord c) ∧ word.toList ≠ "position".toList ∧
      word.toList ≠ [] := by
  simp only [List.mem_cons, List.not_mem_nil, or_false] at h
  rcases h with rfl | rfl | rfl | rfl <;>
    exact ⟨by simp [Lexer.continuesWord, Text.isLetterOrNumeral], by decide, by decide⟩

end Dialect.IsSql

namespace Compiler

/-- What an SQL engine gets for a field: a word, or a word and its arguments in parentheses. -/
inductive Spelled (d : Dialect) : String → List Char → Prop where
  | column {name : String} (h : Lexer.IsName name) : Spelled d name (Text.lower name).toList
  | call {name word : String} {args : List String} (h : Lexer.IsName name) (hne : args ≠ [])
      (hargs : ∀ arg ∈ args, Lexer.IsName arg)
      (hword : d.function (Text.lower name) = some (.call word)) :
      Spelled d (FieldRef.call name args)
        (word.toList ++ '(' :: ((Text.join ", " (args.map Text.lower)).toList ++ [')']))

theorem Rendering.spelled {ctx : Context} {f : String} {field : RenderedField}
    (hd : ctx.dialect.IsSql) (h : Rendering ctx f field) :
    Spelled ctx.dialect f field.expression.toList ∧ field.datePart = false := by
  cases h with
  | column hname =>
    refine ⟨?_, rfl⟩
    rw [hd.column]
    exact .column hname
  | call hname hne hargs hword =>
    refine ⟨?_, rfl⟩
    have hcolumn : ctx.dialect.column = Text.lower := funext hd.column
    simpa [hcolumn] using Spelled.call hname hne hargs hword
  | datePart _ _ hword =>
    obtain ⟨_, -, hform, -⟩ := hd.function_cases hword
    cases hform

/-- A text that does not continue an expression. -/
def Stops (r : List Char) : Prop := ∀ c ∈ r.head?, Lexer.continuesWord c = false ∧ c ≠ '('

theorem stops_cons {c : Char} (hword : Lexer.continuesWord c = false) (hparen : c ≠ '(')
    (r : List Char) : Stops (c :: r) := by
  rintro _ ⟨⟩
  exact ⟨hword, hparen⟩

theorem not_stops_paren (r : List Char) : ¬ Stops ('(' :: r) :=
  fun h => (h _ rfl).2 rfl

namespace Spelled

variable {d : Dialect} {f f' : String} {e e' r r' : List Char}

theorem stops_paren (r : List Char) : ∀ c ∈ ('(' :: r).head?, Lexer.continuesWord c = false := by
  rintro _ ⟨⟩
  decide

/-- An expression starts with a word, and an opening parenthesis is all that can follow it. -/
theorem exists_word (hd : d.IsSql) (h : Spelled d f e) : ∃ w t, e = w ++ t ∧ w ≠ [] ∧
    (∀ c ∈ w, Lexer.continuesWord c) ∧
    (t = [] ∨ ∃ u, t = '(' :: u ∧ w ≠ "position".toList) := by
  cases h with
  | column hname =>
    refine ⟨_, [], (List.append_nil _).symm, ?_, hname.word_lower, Or.inl rfl⟩
    simpa [Lexer.toList_lower] using hname.ne_nil
  | call hname hne hargs hword =>
    obtain ⟨hall, hposition, hnil⟩ := Dialect.IsSql.word_of_mem (hd.function_word hword).1
    exact ⟨_, _, rfl, hnil, hall, Or.inr ⟨_, rfl, hposition⟩⟩

/-- Expressions that are written alike stand for fields that are alike. -/
theorem unique (hd : d.IsSql) (h : Spelled d f e) (h' : Spelled d f' e') (hr : Stops r)
    (hr' : Stops r') (heq : e ++ r = e' ++ r') : FieldsAlike f f' ∧ r = r' := by
  have hstop : ∀ c ∈ r.head?, Lexer.continuesWord c = false := fun c hc => (hr c hc).1
  have hstop' : ∀ c ∈ r'.head?, Lexer.continuesWord c = false := fun c hc => (hr' c hc).1
  cases h with
  | column hname =>
    cases h' with
    | column hname' =>
      obtain ⟨hword, hrest⟩ := span_unique hname.word_lower hname'.word_lower hstop hstop' heq
      exact ⟨fieldsAlike_column hname hname' (String.toList_inj.1 hword), hrest⟩
    | call hname' hne' hargs' hword' =>
      have hall' := (Dialect.IsSql.word_of_mem (hd.function_word hword').1).1
      rw [List.append_assoc] at heq
      obtain ⟨-, hrest⟩ := span_unique hname.word_lower hall' hstop (stops_paren _) heq
      rw [hrest] at hr
      exact absurd hr (not_stops_paren _)
  | @call name word args hname hne hargs hword =>
    have hall := (Dialect.IsSql.word_of_mem (hd.function_word hword).1).1
    rw [List.append_assoc] at heq
    cases h' with
    | column hname' =>
      obtain ⟨-, hrest⟩ := span_unique hall hname'.word_lower (stops_paren _) hstop' heq
      rw [← hrest] at hr'
      exact absurd hr' (not_stops_paren _)
    | @call name' word' args' hname' hne' hargs' hword' =>
      have hall' := (Dialect.IsSql.word_of_mem (hd.function_word hword').1).1
      rw [List.append_assoc] at heq
      obtain ⟨hwords, hrest⟩ := span_unique hall hall' (stops_paren _) (stops_paren _) heq
      have hlists : (Text.join ", " (args.map Text.lower)).toList ++ ')' :: r =
          (Text.join ", " (args'.map Text.lower)).toList ++ ')' :: r' := by simpa using hrest
      obtain ⟨hargsEq, hrest⟩ := arguments_unique hne hne' hargs hargs' hlists
      -- The word is that of the function, and no two functions share one.
      refine ⟨fieldsAlike_call hname hname' hne hne' hargs hargs' ?_ hargsEq, hrest⟩
      rw [(hd.function_word hword).2, (hd.function_word hword').2, String.toList_inj.1 hwords]

/-- No expression is written like the start of a search. -/
theorem ne_position (hd : d.IsSql) (h : Spelled d f e) (hr : Stops r) :
    e ++ r ≠ "position".toList ++ '(' :: r' := by
  intro heq
  obtain ⟨w, t, rfl, -, hw, ht⟩ := h.exists_word hd
  have hposition : ∀ c ∈ "position".toList, Lexer.continuesWord c := by
    simp [Lexer.continuesWord, Text.isLetterOrNumeral]
  rw [List.append_assoc] at heq
  rcases ht with rfl | ⟨u, rfl, hne⟩
  · obtain ⟨-, hrest⟩ := span_unique hw hposition (fun c hc => (hr c hc).1) (stops_paren _) heq
    rw [hrest] at hr
    exact absurd hr (not_stops_paren _)
  · exact hne (span_unique hw hposition (stops_paren _) (stops_paren _) heq).1

/-- No expression starts with a parenthesis. -/
theorem head_ne_paren (hd : d.IsSql) (h : Spelled d f e) : e ++ r ≠ '(' :: r' := by
  intro heq
  obtain ⟨w, t, rfl, hne, hw, -⟩ := h.exists_word hd
  obtain ⟨c, cs, rfl⟩ := List.exists_cons_of_ne_nil hne
  obtain rfl : c = '(' := by simpa using congrArg List.head? heq
  exact absurd (hw '(' List.mem_cons_self) (by decide)

end Spelled

/-! ## Orderings -/

theorem directionWord_code (a b : Direction)
    (h : (directionWord a).toList <+: (directionWord b).toList) : a = b := by
  revert h
  cases a <;> cases b <;> decide

/-- What an SQL engine gets for a key of an ordering. -/
def SpelledKey (d : Dialect) (item : OrderItem) (key : String) : Prop :=
  ∃ e, Spelled d item.field e ∧ key.toList = e ++ ' ' :: (directionWord item.direction).toList

/-- Keys that ask for the same order. -/
def KeysAlike (item item' : OrderItem) : Prop :=
  FieldsAlike item.field item'.field ∧ item.direction = item'.direction

theorem order_spelled {ctx : Context} (hd : ctx.dialect.IsSql) {items : List OrderItem}
    {keys : List String} (hitems : ∀ item ∈ items, IsField item.field)
    (h : order ctx items = .ok keys) : List.Forall₂ (SpelledKey ctx.dialect) items keys := by
  induction items generalizing keys with
  | nil =>
    cases h
    exact .nil
  | cons item items ih =>
    obtain ⟨field, rest, hfield, hrest, rfl⟩ := order_cons_eq_ok_iff.1 h
    have hspelled := ((renderField_cases (hitems item List.mem_cons_self) hfield).spelled hd).1
    refine .cons ⟨_, hspelled, ?_⟩ (ih (fun i hi => hitems i (List.mem_cons_of_mem _ hi)) hrest)
    simp

section Keys

variable {d : Dialect} {r r' : List Char}

theorem SpelledKey.unique (hd : d.IsSql) {item item' : OrderItem} {key key' : String}
    (h : SpelledKey d item key) (h' : SpelledKey d item' key')
    (heq : key.toList ++ r = key'.toList ++ r') : KeysAlike item item' ∧ r = r' := by
  obtain ⟨e, he, hkey⟩ := h
  obtain ⟨e', he', hkey'⟩ := h'
  rw [hkey, hkey', List.append_assoc, List.append_assoc] at heq
  obtain ⟨hfields, hrest⟩ := he.unique hd he' (stops_cons (by decide) (by decide) _)
    (stops_cons (by decide) (by decide) _) heq
  obtain ⟨hdirection, hr⟩ := code_unique directionWord_code (List.cons.inj hrest).2
  exact ⟨⟨hfields, hdirection⟩, hr⟩

/-- Orderings that are written alike have the same keys, if no further key follows them. -/
theorem keys_unique (hd : d.IsSql) {items items' : List OrderItem} {keys keys' : List String}
    (h : List.Forall₂ (SpelledKey d) items keys) (h' : List.Forall₂ (SpelledKey d) items' keys')
    (hne : keys ≠ []) (hne' : keys' ≠ []) (hr : r.head? ≠ some ',') (hr' : r'.head? ≠ some ',')
    (heq : (Text.join ", " keys).toList ++ r = (Text.join ", " keys').toList ++ r') :
    List.Forall₂ KeysAlike items items' ∧ r = r' := by
  have hmore : ∀ (key next : String) (rest : List String) (r : List Char),
      (Text.join ", " (key :: next :: rest)).toList ++ r =
        key.toList ++ ',' :: ' ' :: ((Text.join ", " (next :: rest)).toList ++ r) := by
    intro key next rest r
    simp [Text.join]
  -- Both orderings go on with a comma or both end, since no comma follows them.
  induction h generalizing items' keys' with
  | nil => exact absurd rfl hne
  | cons hkey htail ih =>
    cases h' with
    | nil => exact absurd rfl hne'
    | cons hkey' htail' =>
      cases htail with
      | nil =>
        cases htail' with
        | nil =>
          obtain ⟨halike, hrest⟩ := hkey.unique hd hkey' heq
          exact ⟨.cons halike .nil, hrest⟩
        | cons =>
          rw [hmore] at heq
          exact absurd (congrArg List.head? (hkey.unique hd hkey' heq).2) hr
      | cons =>
        rw [hmore] at heq
        cases htail' with
        | nil => exact absurd (congrArg List.head? (hkey.unique hd hkey' heq).2.symm) hr'
        | cons hnext' hrest' =>
          rw [hmore] at heq
          obtain ⟨halike, hrest⟩ := hkey.unique hd hkey' heq
          obtain ⟨hitems, hr⟩ := ih (.cons hnext' hrest') (by simp) (by simp)
            (by simpa using hrest)
          exact ⟨.cons halike hitems, hr⟩

end Keys

end Compiler

end NetQuery
