import NetQuery.Proofs.Formed

/-!
# Fields as texts

The text of a field is taken apart in one way, whoever wrote it. Any text at all names at most one
column: a call names its first argument, and a text that is no call names itself (`Names`). A text
that the parser put together from tokens says more. The tokens tell the function and the arguments,
and taking the text apart gives back these and nothing else.
-/

namespace NetQuery

/-! ## Cutting a text -/

namespace Text

theorem cut_eq_some {mark : Char} {cs before after : List Char}
    (h : cut mark cs = some (before, after)) : mark ∉ before ∧ cs = before ++ mark :: after := by
  induction cs generalizing before with
  | nil => cases h
  | cons c cs ih =>
    rw [cut] at h
    split at h
    next hc =>
      cases h
      exact ⟨by simp, by rw [hc]; rfl⟩
    next hc =>
      obtain ⟨⟨before', after'⟩, hcut, heq⟩ := Option.map_eq_some_iff.1 h
      cases heq
      obtain ⟨hbefore, rfl⟩ := ih hcut
      refine ⟨?_, rfl⟩
      rw [List.mem_cons, not_or]
      exact ⟨Ne.symm hc, hbefore⟩

theorem dropFinal_eq_some {mark : Char} {cs inner : List Char}
    (h : dropFinal mark cs = some inner) : cs = inner ++ [mark] := by
  fun_induction dropFinal mark cs generalizing inner with
  | case1 => cases h
  | case2 => cases h; rfl
  | case3 => cases h
  | case4 c d cs ih =>
    obtain ⟨inner', hinner, rfl⟩ := Option.map_eq_some_iff.1 h
    rw [ih hinner]
    rfl

end Text

namespace FieldRef

/-- A text is a call: what stands before its first opening parenthesis, and what stands between that
and a closing one at the end. -/
def IsCall (text name inner : List Char) : Prop :=
  '(' ∉ name ∧ text = name ++ '(' :: (inner ++ [')'])

theorem ofText_of_isCall {field : String} {name inner : List Char}
    (h : IsCall field.toList name inner) :
    ofText field = ⟨some (String.ofList (Text.trimChars name)), arguments inner⟩ := by
  obtain ⟨hname, htext⟩ := h
  rw [ofText, htext, Text.cut_append hname]
  simp only [Text.dropFinal_append]

theorem ofText_of_not_isCall {field : String} (h : ∀ name inner, ¬IsCall field.toList name inner) :
    ofText field = ⟨none, [field]⟩ := by
  unfold ofText
  split
  next name rest hcut =>
    obtain ⟨hname, htext⟩ := Text.cut_eq_some hcut
    split
    next inner hinner =>
      rw [Text.dropFinal_eq_some hinner] at htext
      exact absurd ⟨hname, htext⟩ (h name inner)
    next => rfl
  next => rfl

/-! ## The first argument -/

/-- A character that may stand before the first argument. -/
def IsGap (c : Char) : Prop := Text.isBlank c ∨ c = ','

theorem arguments_cons_of_isGap {c : Char} (hc : IsGap c) (cs : List Char) :
    arguments (c :: cs) = arguments cs := by
  by_cases hcomma : c = ','
  · subst hcomma
    simp [arguments, Text.splitOn, Text.trimChars]
  · have hblank : Text.isBlank c := hc.resolve_right hcomma
    rw [arguments, arguments, Text.map_trimChars_splitOn_blank hblank (Ne.symm hcomma)]

theorem arguments_append_of_isGap {lead : List Char} (h : ∀ c ∈ lead, IsGap c) (cs : List Char) :
    arguments (lead ++ cs) = arguments cs := by
  induction lead with
  | nil => rfl
  | cons c lead ih =>
    rw [List.cons_append, arguments_cons_of_isGap (h c List.mem_cons_self)]
    exact ih fun d hd => h d (List.mem_cons_of_mem _ hd)

/-- What is between the parentheses of a call, cut where its first argument starts and ends: that is
the first part between commas in which there is anything but blanks. -/
structure IsFirstArgument (inner lead part rest : List Char) : Prop where
  cut : inner = lead ++ (part ++ rest)
  lead : ∀ c ∈ lead, IsGap c
  no_comma : ',' ∉ part
  not_blank : ∃ c ∈ part, Text.isBlank c = false
  rest : ∀ c ∈ rest.head?, c = ','

theorem IsFirstArgument.head?_arguments {inner lead part rest : List Char}
    (h : IsFirstArgument inner lead part rest) :
    (arguments inner).head? = some (String.ofList (Text.trimChars part)) := by
  have htrim : Text.trimChars part ≠ [] := by
    intro hnil
    obtain ⟨c, hc, hblank⟩ := h.not_blank
    rw [Text.trimChars_eq_nil_iff.1 hnil c hc] at hblank
    cases hblank
  have hsplit : ∃ parts, Text.splitOn ',' (part ++ rest) = part :: parts := by
    cases rest with
    | nil => exact ⟨[], by rw [List.append_nil, Text.splitOn_of_not_mem h.no_comma]⟩
    | cons c rest =>
      obtain rfl : c = ',' := h.rest c rfl
      exact ⟨_, Text.splitOn_append h.no_comma rest⟩
  obtain ⟨parts, hparts⟩ := hsplit
  rw [h.cut, arguments_append_of_isGap h.lead]
  simp [arguments, hparts, htrim]

theorem exists_isFirstArgument {inner : List Char} {column : String}
    (h : (arguments inner).head? = some column) :
    ∃ lead part rest, IsFirstArgument inner lead part rest ∧
      column = String.ofList (Text.trimChars part) := by
  induction inner with
  | nil => cases h
  | cons c cs ih =>
    by_cases hc : IsGap c
    · rw [arguments_cons_of_isGap hc] at h
      obtain ⟨lead, part, rest, hfirst, hcolumn⟩ := ih h
      have hlead : ∀ d ∈ c :: lead, IsGap d := by simpa using ⟨hc, hfirst.lead⟩
      refine ⟨c :: lead, part, rest, ?_, hcolumn⟩
      exact { hfirst with cut := congrArg (c :: ·) hfirst.cut, lead := hlead }
    · -- The argument starts here, since `c` is no blank, and it ends before the next comma.
      obtain ⟨hblank, hcomma⟩ : Text.isBlank c = false ∧ c ≠ ',' := by simpa [IsGap] using hc
      have hfirst : IsFirstArgument (c :: cs) [] ((c :: cs).takeWhile (· ≠ ','))
          ((c :: cs).dropWhile (· ≠ ',')) := by
        refine ⟨List.takeWhile_append_dropWhile.symm, by simp, ?_, ?_, ?_⟩
        · intro hmem
          simpa using List.mem_takeWhile_imp hmem
        · exact ⟨c, by simp [hcomma], hblank⟩
        · intro d hd
          have hstop := List.head?_dropWhile_not (· ≠ ',') (c :: cs)
          rw [Option.mem_def.1 hd] at hstop
          simpa using hstop
      rw [hfirst.head?_arguments] at h
      exact ⟨_, _, _, hfirst, (Option.some.inj h).symm⟩

/-- A text names a column as a field. A call names its first argument, without the blanks around it;
a call that has none names no column. Any other text names itself. -/
inductive Names : String → String → Prop where
  | whole {field : String} (h : ∀ name inner, ¬IsCall field.toList name inner) : Names field field
  | argument {field : String} {name inner lead part rest : List Char}
      (h : IsCall field.toList name inner) (hfirst : IsFirstArgument inner lead part rest) :
      Names field (String.ofList (Text.trimChars part))

theorem names_iff {field column : String} :
    Names field column ↔ (ofText field).args.head? = some column := by
  constructor
  · intro h
    cases h with
    | whole hcall => rw [ofText_of_not_isCall hcall, List.head?_cons]
    | argument hcall hfirst => rw [ofText_of_isCall hcall, hfirst.head?_arguments]
  · intro h
    by_cases hcall : ∃ name inner, IsCall field.toList name inner
    · obtain ⟨name, inner, hcall⟩ := hcall
      rw [ofText_of_isCall hcall] at h
      obtain ⟨lead, part, rest, hfirst, rfl⟩ := exists_isFirstArgument h
      exact .argument hcall hfirst
    · push Not at hcall
      rw [ofText_of_not_isCall hcall] at h
      obtain rfl : field = column := by simpa using h
      exact .whole hcall

/-! ## Fields of tokens -/

/-- A field in the tokens that spell it. The function is in small letters; the names of columns are
as they were written. -/
inductive Written : List TokenKind → FieldRef → Prop where
  | column (name : String) : Written [.name name] ⟨none, [name]⟩
  | call (name : String) (args : List String) (hne : args ≠ []) :
      Written (.name name :: .openParen :: ((args.map .name).intersperse .comma ++ [.closeParen]))
        ⟨some (Text.lower name), args⟩

theorem Written.eq_column {ks : List TokenKind} {ref : FieldRef} (h : Written ks ref)
    (hcolumn : ref.function = none) : ∃ name, ks = [.name name] := by
  cases h with
  | column name => exact ⟨name, rfl⟩
  | call name args hne => cases hcolumn

end FieldRef

namespace Grammar

theorem arguments_iff {ks : List TokenKind} {args : List String} :
    Arguments ks args ↔ args ≠ [] ∧ ks = (args.map TokenKind.name).intersperse .comma := by
  constructor
  · intro h
    induction h with
    | last arg => simp
    | more arg hargs ih =>
      obtain ⟨hne, rfl⟩ := ih
      obtain ⟨arg', args', rfl⟩ := List.exists_cons_of_ne_nil hne
      simp
  · rintro ⟨hne, rfl⟩
    induction args with
    | nil => exact absurd rfl hne
    | cons arg args ih =>
      cases args with
      | nil => exact .last arg
      | cons arg' args => exact .more arg (ih (by simp))

/-- Taking apart the text of a field gives what its tokens say. -/
theorem Field.written {ks : List TokenKind} {f : String} (h : Field ks f) (hnames : Named ks) :
    FieldRef.Written ks (FieldRef.ofText f) := by
  cases h with
  | column name =>
    rw [FieldRef.ofText_name hnames.head]
    exact .column f
  | call name hargs =>
    obtain ⟨hne, hall⟩ := hargs.isName hnames.tail.tail.left
    rw [FieldRef.ofText_call hnames.head hne hall, (arguments_iff.1 hargs).2]
    exact .call name _ hne

end Grammar

namespace Parser

open FieldRef (Written)

variable {ts rest : List Token} {f : String}

/-- A name with a parenthesis after it is not left alone: the parser goes on with a call. -/
theorem rest_ne_openParen {name : String} {p : Position}
    (h : Reads field (⟨.name name, p⟩ :: rest) f rest) (q : Position) (us : List Token) :
    rest ≠ ⟨.openParen, q⟩ :: us := by
  rintro rfl
  obtain ⟨hlt, h⟩ := h
  rw [field] at h
  split at h
  next => cases h
  next r hr =>
    have hrest : r.rest = ⟨.openParen, q⟩ :: us := congrArg Parsed.rest (Except.ok.inj h)
    have hshorter := r.shorter
    rw [hrest, List.length_cons] at hshorter
    omega

theorem named_of_suffix {text : String} {stream : TokenStream} (h : tokenize text = .ok stream)
    (hts : ts <:+ stream.tokens) : Grammar.Named (kinds ts) := by
  intro w hw
  obtain ⟨t, ht, hkind⟩ := List.mem_map.1 hw
  exact tokenize_name h t (hts.subset ht) w hkind

/-- Wherever the parser reads a field in the tokens of a text, the compiler finds in the text of the
field what the tokens say; and a field is read wherever tokens spell one, unless a parenthesis that
follows makes a column a call. -/
theorem reads_field_iff_written {text : String} {stream : TokenStream}
    (h : tokenize text = .ok stream) (hts : ts <:+ stream.tokens) (rest : List Token)
    (ref : FieldRef) :
    (∃ f, Reads field ts f rest ∧ FieldRef.ofText f = ref) ↔
      Starts (Written · ref) ts rest ∧
        (ref.function = none → ∀ p us, rest ≠ ⟨.openParen, p⟩ :: us) := by
  have hnamed : Grammar.Named (kinds ts) := named_of_suffix h hts
  constructor
  · rintro ⟨f, hread, rfl⟩
    obtain ⟨us, rfl, hfield⟩ := field_sound hread
    rw [kinds, List.map_append] at hnamed
    have hwritten : Written (kinds us) (FieldRef.ofText f) := hfield.written hnamed.left
    refine ⟨⟨us, rfl, hwritten⟩, ?_⟩
    intro hcolumn
    obtain ⟨name, hname⟩ := hwritten.eq_column hcolumn
    obtain ⟨p, rfl⟩ := kinds_eq_singleton hname
    exact rest_ne_openParen hread
  · rintro ⟨⟨us, rfl, hwritten⟩, hnext⟩
    rw [kinds, List.map_append] at hnamed
    have hnames : Grammar.Named (kinds us) := hnamed.left
    generalize hks : kinds us = ks at hwritten hnames
    cases hwritten with
    | column name =>
      exact ⟨name, field_complete (.column name) hks (hnext rfl), FieldRef.ofText_name hnames.head⟩
    | call name args hne =>
      have hargs : Grammar.Arguments ((args.map TokenKind.name).intersperse .comma) args :=
        Grammar.arguments_iff.2 ⟨hne, rfl⟩
      refine ⟨FieldRef.call name args, call_complete name hargs rest hks, ?_⟩
      exact FieldRef.ofText_call hnames.head hne (hargs.isName hnames.tail.tail.left).2

/-- A call with letters outside ASCII, a point and loose blanks, in the middle of a query. -/
theorem reads_field_iff_written_call : ∃ (stream : TokenStream) (ts rest : List Token) (f : String),
    tokenize "count devices where DATE (Été,b.c ) = 1" = .ok stream ∧ ts <:+ stream.tokens ∧
    kinds ts = .name "DATE" :: .openParen :: .name "Été" :: .comma :: .name "b.c" :: .closeParen ::
      kinds rest ∧
    Reads field ts f rest ∧ FieldRef.ofText f = ⟨some "date", ["Été", "b.c"]⟩ := by
  have htokens : tokenize "count devices where DATE (Été,b.c ) = 1" =
      .ok ⟨[⟨.keyword .count, ⟨0, 1, 1⟩⟩, ⟨.name "devices", ⟨6, 1, 7⟩⟩,
        ⟨.keyword .where, ⟨14, 1, 15⟩⟩, ⟨.name "DATE", ⟨20, 1, 21⟩⟩, ⟨.openParen, ⟨25, 1, 26⟩⟩,
        ⟨.name "Été", ⟨26, 1, 27⟩⟩, ⟨.comma, ⟨31, 1, 30⟩⟩, ⟨.name "b.c", ⟨32, 1, 31⟩⟩,
        ⟨.closeParen, ⟨36, 1, 35⟩⟩, ⟨.compare .eq, ⟨38, 1, 37⟩⟩, ⟨.int 1, ⟨40, 1, 39⟩⟩],
        ⟨41, 1, 40⟩⟩ := rfl
  have hwritten : Written [.name "DATE", .openParen, .name "Été", .comma, .name "b.c", .closeParen]
      ⟨some (Text.lower "DATE"), ["Été", "b.c"]⟩ := .call "DATE" ["Été", "b.c"] (by simp)
  have hlower : Text.lower "DATE" = "date" := by decide
  rw [hlower] at hwritten
  obtain ⟨f, hread, hf⟩ := (reads_field_iff_written htokens (List.drop_suffix 3 _)
    [⟨.compare .eq, ⟨38, 1, 37⟩⟩, ⟨.int 1, ⟨40, 1, 39⟩⟩] ⟨some "date", ["Été", "b.c"]⟩).2
    ⟨⟨[⟨.name "DATE", ⟨20, 1, 21⟩⟩, ⟨.openParen, ⟨25, 1, 26⟩⟩, ⟨.name "Été", ⟨26, 1, 27⟩⟩,
      ⟨.comma, ⟨31, 1, 30⟩⟩, ⟨.name "b.c", ⟨32, 1, 31⟩⟩, ⟨.closeParen, ⟨36, 1, 35⟩⟩],
      rfl, hwritten⟩, by simp⟩
  exact ⟨_, _, _, f, htokens, List.drop_suffix 3 _, rfl, hread, hf⟩

end Parser

end NetQuery
