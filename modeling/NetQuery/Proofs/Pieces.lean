import NetQuery.Proofs.Compiling
import NetQuery.Proofs.Formed

/-!
# The text around the values

The text of a statement, as far as it is not a value, comes from three places: the tables of the
dialect, the names in the query, and the numbers of its limit and its page. All three keep to one
small alphabet, in which no mark of a placeholder and no quote stands, and no piece of text starts
with a digit. So a placeholder ends where its digits end, and nothing else looks like one.
-/

namespace NetQuery

/-! ## The alphabet -/

/-- The characters of the text around the values. -/
def isPlain (c : Char) : Bool :=
  Lexer.continuesWord c || [' ', '\n', ',', '(', ')', '*', '=', '!', '<', '>'].contains c

/-- Text in which only plain characters stand. -/
def Plain (s : String) : Prop := ∀ c ∈ s.toList, isPlain c

instance (s : String) : Decidable (Plain s) :=
  decidable_of_iff (s.toList.all isPlain = true) List.all_eq_true

/-- Plain text that may stand after a placeholder without making its number longer. -/
structure Neat (s : String) : Prop where
  /-- There is a first character. -/
  ne_nil : s.toList ≠ []
  /-- The first character is no digit. -/
  start : ∀ c ∈ s.toList.head?, Number.isDigit c = false
  /-- All characters are plain. -/
  plain : Plain s

instance (s : String) : Decidable (Neat s) :=
  decidable_of_iff (s.toList.head?.any (fun c => !Number.isDigit c) = true ∧ Plain s) <| by
    constructor
    · rintro ⟨hstart, hplain⟩
      obtain ⟨c, hc, hdigit⟩ := (Option.any_eq_true _ _).1 hstart
      refine ⟨fun hnil => by simp [hnil] at hc, fun d hd => ?_, hplain⟩
      obtain rfl : d = c := Option.some.inj (hd.symm.trans hc)
      simpa using hdigit
    · intro h
      obtain ⟨c, hc⟩ := Option.isSome_iff_exists.1 (List.isSome_head?.2 h.ne_nil)
      exact ⟨by simp [hc, h.start c hc], h.plain⟩

theorem Plain.append {s t : String} (hs : Plain s) (ht : Plain t) : Plain (s ++ t) := by
  intro c hc
  rw [String.toList_append] at hc
  rcases List.mem_append.1 hc with hc | hc
  · exact hs c hc
  · exact ht c hc

theorem Neat.append {s t : String} (hs : Neat s) (ht : Plain t) : Neat (s ++ t) where
  ne_nil := by simpa using fun h => absurd h (by simpa using hs.ne_nil)
  start := by
    intro c hc
    refine hs.start c ?_
    rwa [String.toList_append, List.head?_append_of_ne_nil _ hs.ne_nil] at hc
  plain := hs.plain.append ht

theorem Plain.join {separator : String} (hseparator : Plain separator) {ss : List String}
    (h : ∀ s ∈ ss, Plain s) : Plain (Text.join separator ss) := by
  intro c hc
  rcases Text.mem_join hc with hc | ⟨s, hs, hc⟩
  · exact hseparator c hc
  · exact h s hs c hc

theorem plain_toString (n : Nat) : Plain (toString n) := by
  intro c hc
  rw [Nat.toString_eq_ofList_toDigits, String.toList_ofList] at hc
  have hword : Lexer.continuesWord c :=
    Lexer.continuesWord_of_isDigit (Nat.isDigit_of_mem_toDigits (by decide) (by decide) hc)
  simp [isPlain, hword]

theorem Lexer.IsName.plain_lower {w : String} (h : Lexer.IsName w) : Plain (Text.lower w) := by
  intro c hc
  simp [isPlain, h.word_lower c hc]

theorem Lexer.IsName.neat_lower {w : String} (h : Lexer.IsName w) : Neat (Text.lower w) where
  ne_nil := by simpa [Lexer.toList_lower] using h.ne_nil
  start := by
    intro c hc
    rw [Lexer.toList_lower, List.head?_map] at hc
    obtain ⟨d, hd, rfl⟩ := Option.map_eq_some_iff.1 hc
    exact Lexer.isDigit_eq_false_of_startsWord (Lexer.startsWord_toLower (h.start d hd))
  plain := h.plain_lower

/-! ## Dialects -/

/-- A dialect that adds no other text than neat text. -/
structure Dialect.IsNeat (d : Dialect) : Prop where
  andWord : Plain d.andWord
  orWord : Plain d.orWord
  qualifier : d.qualifier = "" ∨ Neat d.qualifier
  source : ∀ e s, d.source e = some s → Plain s
  comparator : ∀ c, Plain (d.comparator c)
  dateKeyword : ∀ k s, d.dateKeyword k = some s → Neat s
  call : ∀ f name, d.function f = some (.call name) → Neat name
  datePart : ∀ f name start length, d.function f = some (.datePart name start length) → Neat name
  template : ∀ op s, .text s ∈ d.template op → Neat s
  countProjection : ∀ s, d.shape = .sql s → Plain s
  document : ∀ binder separator, d.shape = .document binder separator →
    Plain binder ∧ Neat separator

/-- The operands of an operator, in the order in which they are written. -/
def Operator.slots : Operator → List Slot
  | .between => [.operand, .upper]
  | .isNull | .isNotNull => []
  | _ => [.operand]

/-- The slot of an operand. -/
def Slot.isOperand : Slot → Bool
  | .operand | .upper => true
  | _ => false

/-- Every backend writes each operand of an operator once, and the lower bound of a range first. -/
theorem filter_template (backend : Backend) (op : Operator) :
    (backend.dialect.template op).filter Slot.isOperand = op.slots := by
  cases backend <;> cases op <;> rfl

theorem neat_spaced {s : String} (h : Plain s) : Neat (" " ++ s ++ " ") :=
  have hspace : Neat " " := by decide +kernel
  (hspace.append h).append hspace.plain

theorem plain_name (e : Entity) : Plain e.name := by
  cases e <;> decide +kernel

theorem plain_comparator (c : Comparator) : Plain c.text := by
  cases c <;> decide +kernel

/-- A dialect of SQL adds neat text only, if its own words are neat. -/
theorem Dialect.isNeat_sql (backend : Backend) {source : Entity → String} {dateFunction : String}
    (hsource : ∀ e, Plain (source e)) (hdate : Neat dateFunction) :
    (Dialect.sql backend source dateFunction).IsNeat where
  andWord := show Plain "AND" by decide +kernel
  orWord := show Plain "OR" by decide +kernel
  qualifier := Or.inl rfl
  source := by
    rintro e s ⟨⟩
    exact hsource e
  comparator := plain_comparator
  dateKeyword := by
    rintro k s hs
    cases k <;> cases hs <;> decide +kernel
  call := by
    intro f name h
    simp only [Dialect.sql] at h
    split at h <;> cases h
    · exact hdate
    · decide +kernel
    · decide +kernel
  datePart := by
    intro f name start length h
    simp only [Dialect.sql] at h
    split at h <;> cases h
  template := by
    intro op s h
    cases op with
    | compare c =>
      simp only [Dialect.template, Dialect.sql, List.mem_cons, reduceCtorEq, Slot.text.injEq,
        List.not_mem_nil, or_false, false_or] at h
      exact h ▸ neat_spaced (plain_comparator c)
    | _ =>
      simp only [Dialect.template, Dialect.sql, List.mem_cons, reduceCtorEq, Slot.text.injEq,
        List.not_mem_nil, or_false, false_or] at h
      rcases h with rfl | rfl | rfl <;> decide +kernel
  countProjection := by
    rintro s ⟨⟩
    decide +kernel
  document := nofun

theorem Dialect.isNeat_arangoDb : Dialect.arangoDb.IsNeat where
  andWord := show Plain "AND" by decide +kernel
  orWord := show Plain "OR" by decide +kernel
  qualifier := Or.inr (show Neat "doc." by decide +kernel)
  source := by
    intro e s hs
    have hname : s = e.name := by cases e <;> cases hs <;> rfl
    exact hname ▸ plain_name e
  comparator := by
    intro c
    cases c <;> decide +kernel
  dateKeyword := nofun
  call := by
    intro f name h
    simp only [Dialect.arangoDb] at h
    split at h <;> cases h <;> decide +kernel
  datePart := by
    intro f name start length h
    simp only [Dialect.arangoDb] at h
    split at h <;> cases h
    decide +kernel
  template := by
    intro op s h
    cases op with
    | compare c =>
      simp only [Dialect.template, Dialect.arangoDb, List.mem_cons, reduceCtorEq,
        Slot.text.injEq, List.not_mem_nil, or_false, false_or] at h
      exact h ▸ neat_spaced (by cases c <;> decide +kernel)
    | _ =>
      simp only [Dialect.template, Dialect.arangoDb, List.mem_cons, reduceCtorEq,
        Slot.text.injEq, List.not_mem_nil, or_false, false_or] at h
      rcases h with rfl | rfl | rfl | rfl | rfl <;> decide +kernel
  countProjection := nofun
  document := by
    rintro binder separator ⟨⟩
    exact ⟨by decide +kernel, by decide +kernel⟩

/-- All three dialects add neat text only. -/
theorem Backend.isNeat_dialect (backend : Backend) : backend.dialect.IsNeat := by
  cases backend with
  | clickHouse => exact Dialect.isNeat_sql _ plain_name (by decide +kernel)
  | proton =>
    refine Dialect.isNeat_sql _ ?_ (by decide +kernel)
    intro e
    cases e <;> decide +kernel
  | arangoDb => exact Dialect.isNeat_arangoDb

/-! ## Comparisons -/

/-- A piece is a value or neat text. -/
def Piece.IsNeat : Piece → Prop
  | .text s => Neat s
  | .param _ => True

namespace Compiler

variable {ctx : Context} {field : RenderedField}

theorem neat_column {d : Dialect} (hd : d.IsNeat) {name : String} (h : Lexer.IsName name) :
    Neat (d.column name) := by
  rcases hd.qualifier with hnone | hneat
  · rw [Dialect.column, hnone, String.empty_append]
    exact h.neat_lower
  · exact hneat.append h.plain_lower

theorem Rendering.neat (hd : ctx.dialect.IsNeat) {f : String} (h : Rendering ctx f field) :
    Neat field.expression := by
  have hopen : Plain "(" := by decide +kernel
  have hcomma : Plain ", " := by decide +kernel
  have hclose : Plain ")" := by decide +kernel
  cases h with
  | column hname => exact neat_column hd hname
  | @call name word args hname hne hargs hword =>
    have hjoin : Plain (Text.join ", " (args.map ctx.dialect.column)) := by
      refine Plain.join hcomma fun s hs => ?_
      obtain ⟨arg, harg, rfl⟩ := List.mem_map.1 hs
      exact (neat_column hd (hargs arg harg)).plain
    exact (((hd.call _ _ hword).append hopen).append hjoin).append hclose
  | @datePart name word arg start length hname harg hword =>
    have hargs : Plain (ctx.dialect.column arg ++ ", " ++ toString start ++ ", " ++
        toString length) :=
      ((((neat_column hd harg).plain.append hcomma).append (plain_toString start)).append
        hcomma).append (plain_toString length)
    exact (((hd.datePart _ _ _ _ hword).append hopen).append hargs).append hclose

theorem Scalar.isNeat (hd : ctx.dialect.IsNeat) {value : Value} {ps : List Piece}
    (h : Scalar ctx field value ps) : ∀ p ∈ ps, p.IsNeat := by
  intro p hp
  cases h with
  | native _ hword =>
    obtain rfl := List.mem_singleton.1 hp
    exact hd.dateKeyword _ _ hword
  | date =>
    obtain rfl := List.mem_singleton.1 hp
    trivial
  | bound =>
    obtain rfl := List.mem_singleton.1 hp
    trivial

theorem Operands.isNeat (hd : ctx.dialect.IsNeat) {op : Operator} {value : Value}
    {operand upper : List Piece} (h : Operands ctx field op value operand upper) :
    (∀ p ∈ operand, p.IsNeat) ∧ ∀ p ∈ upper, p.IsNeat := by
  cases h with
  | isNull => simp
  | isNotNull => simp
  | compare _ h => exact ⟨h.isNeat hd, by simp⟩
  | like h => exact ⟨h.isNeat hd, by simp⟩
  | contains h => exact ⟨h.isNeat hd, by simp⟩
  | isIn => simp [Piece.IsNeat]
  | between hlow hhigh => exact ⟨hlow.isNeat hd, hhigh.isNeat hd⟩

theorem comparison_isNeat (hd : ctx.dialect.IsNeat) {c : Comparison} {ps : List Piece}
    (hf : IsField c.field) (h : comparison ctx c = .ok ps) : ∀ p ∈ ps, p.IsNeat := by
  obtain ⟨field, operand, upper, hfield, -, hoperands, rfl⟩ := comparison_cases h
  obtain ⟨hoperand, hupper⟩ := hoperands.isNeat hd
  intro p hp
  obtain ⟨slot, hslot, hp⟩ := List.mem_flatMap.1 hp
  cases slot with
  | text s =>
    obtain rfl := List.mem_singleton.1 hp
    exact hd.template _ _ hslot
  | field =>
    obtain rfl := List.mem_singleton.1 hp
    exact (renderField_cases hf hfield).neat hd
  | operand => exact hoperand p hp
  | upper => exact hupper p hp

theorem joints_isNeat {d : Dialect} (hd : d.IsNeat) : ∀ p ∈ d.joints, p.IsNeat := by
  have hopen : Neat "(" := by decide +kernel
  have hclose : Neat ")" := by decide +kernel
  simpa [Dialect.joints, Piece.IsNeat] using
    ⟨neat_spaced hd.andWord, neat_spaced hd.orWord, hopen, hclose⟩

theorem chain_isNeat (hd : ctx.dialect.IsNeat) {cs : List Condition} {ps : List Piece}
    (hcs : ∀ c ∈ comparisonsOf cs, IsField c.field) (h : chain ctx cs = .ok ps) :
    ∀ p ∈ ps, p.IsNeat := by
  obtain ⟨-, -, -, hmem⟩ := chain_joins h
  intro p hp
  rcases hmem p hp with hjoint | ⟨c, hc, qs, hqs, hp⟩
  · exact joints_isNeat hd p hjoint
  · exact comparison_isNeat hd (hcs c hc) hqs p hp

theorem order_plain (hd : ctx.dialect.IsNeat) {items : List OrderItem} {keys : List String}
    (hitems : ∀ item ∈ items, IsField item.field) (h : order ctx items = .ok keys) :
    ∀ key ∈ keys, Plain key := by
  induction items generalizing keys with
  | nil =>
    cases h
    simp
  | cons item items ih =>
    obtain ⟨field, rest, hfield, hrest, rfl⟩ := order_cons_eq_ok_iff.1 h
    have hneat := (renderField_cases (hitems item List.mem_cons_self) hfield).neat hd
    have hspace : Plain " " := by decide +kernel
    have hword : Plain (directionWord item.direction) := by
      cases item.direction <;> decide +kernel
    have hrest := ih (fun i hi => hitems i (List.mem_cons_of_mem _ hi)) hrest
    simpa using ⟨(hneat.plain.append hspace).append hword, hrest⟩

end Compiler

/-! ## Statements -/

/-- Clauses without a quote or a mark of a placeholder outside their values. -/
structure Clauses.IsNeat (c : Clauses) : Prop where
  source : Plain c.source
  filter : ∀ ps, c.filter = some ps → ∀ p ∈ ps, p.IsNeat
  order : ∀ key ∈ c.order, Plain key

namespace Clauses

variable {c : Clauses}

theorem IsNeat.filterClause (h : c.IsNeat) {word : String} (hword : Neat word) {p : Piece}
    (hp : p ∈ (match c.filter with
      | none => []
      | some filter => Piece.text word :: filter)) : p.IsNeat := by
  cases hfilter : c.filter with
  | none => simp [hfilter] at hp
  | some ps =>
    rw [hfilter] at hp
    rcases List.mem_cons.1 hp with rfl | hp
    · exact hword
    · exact h.filter ps hfilter p hp

theorem IsNeat.orderClause (h : c.IsNeat) {word : String} (hword : Neat word) {p : Piece}
    (hp : p ∈ if c.order.isEmpty then [] else [Piece.text (word ++ Text.join ", " c.order)]) :
    p.IsNeat := by
  have hcomma : Plain ", " := by decide +kernel
  split at hp
  · simp at hp
  · obtain rfl := List.mem_singleton.1 hp
    exact hword.append (hcomma.join h.order)

theorem IsNeat.sql (h : c.IsNeat) {countProjection : String} (hcount : Plain countProjection) :
    ∀ p ∈ c.sql countProjection, p.IsNeat := by
  have hselect : Neat "SELECT " := by decide +kernel
  have hstar : Plain "*" := by decide +kernel
  have hfrom : Plain " FROM " := by decide +kernel
  have hwhere : Neat " WHERE " := by decide +kernel
  have horder : Neat " ORDER BY " := by decide +kernel
  have hlimit : Neat " LIMIT " := by decide +kernel
  have hoffset : Neat " OFFSET " := by decide +kernel
  intro p hp
  simp only [Clauses.sql, List.mem_cons, List.mem_append] at hp
  rcases hp with rfl | ((hp | hp) | hp) | hp
  · refine ((hselect.append ?_).append hfrom).append h.source
    cases c.kind with
    | records => exact hstar
    | count => exact hcount
  · exact h.filterClause hwhere hp
  · exact h.orderClause horder hp
  · split at hp
    · simp at hp
    · obtain rfl := List.mem_singleton.1 hp
      exact hlimit.append (plain_toString _)
  · split at hp
    · obtain rfl := List.mem_singleton.1 hp
      exact hoffset.append (plain_toString _)
    · simp at hp

theorem IsNeat.documentRecords (h : c.IsNeat) {binder separator : String}
    (hbinder : Plain binder) (hseparator : Neat separator) (hkind : c.kind = .records) :
    ∀ p ∈ c.document binder separator, p.IsNeat := by
  have hfor : Neat "FOR " := by decide +kernel
  have hin : Plain " IN " := by decide +kernel
  have hfilter : Plain "FILTER " := by decide +kernel
  have hsort : Plain "SORT " := by decide +kernel
  have hlimit : Plain "LIMIT " := by decide +kernel
  have hcomma : Plain ", " := by decide +kernel
  have hreturn : Plain "RETURN " := by decide +kernel
  intro p hp
  simp only [Clauses.document, hkind, List.mem_cons, List.mem_append, List.not_mem_nil,
    or_false] at hp
  rcases hp with rfl | ((hp | hp) | hp) | rfl
  · exact ((hfor.append hbinder).append hin).append h.source
  · exact h.filterClause (hseparator.append hfilter) hp
  · exact h.orderClause (hseparator.append hsort) hp
  · split at hp
    · simp at hp
    · obtain rfl := List.mem_singleton.1 hp
      refine ((hseparator.append hlimit).append ?_).append (plain_toString _)
      split
      · exact (plain_toString _).append hcomma
      · simp [Plain]
  · exact (hseparator.append hreturn).append hbinder

/-- A count is written around the statement of the records that it counts. -/
theorem document_count (hkind : c.kind = .count) (binder separator : String) :
    c.document binder separator = .text "RETURN LENGTH(\n" ::
      (Clauses.document { c with kind := .records } binder separator ++ [.text "\n)"]) := by
  simp [Clauses.document, hkind]

theorem IsNeat.document (h : c.IsNeat) {binder separator : String} (hbinder : Plain binder)
    (hseparator : Neat separator) : ∀ p ∈ c.document binder separator, p.IsNeat := by
  have hopen : Neat "RETURN LENGTH(\n" := by decide +kernel
  have hclose : Neat "\n)" := by decide +kernel
  cases hkind : c.kind with
  | records => exact h.documentRecords hbinder hseparator hkind
  | count =>
    have hrecords : Clauses.IsNeat { c with kind := .records } := ⟨h.source, h.filter, h.order⟩
    intro p hp
    rw [document_count hkind, List.mem_cons, List.mem_append, List.mem_singleton] at hp
    rcases hp with rfl | hp | rfl
    · exact hopen
    · exact hrecords.documentRecords hbinder hseparator rfl p hp
    · exact hclose

theorem IsNeat.statement (h : c.IsNeat) {d : Dialect} (hd : d.IsNeat) :
    ∀ p ∈ c.statement d.shape, p.IsNeat := by
  cases hshape : d.shape with
  | sql countProjection => exact h.sql (hd.countProjection _ hshape)
  | document binder separator =>
    obtain ⟨hbinder, hseparator⟩ := hd.document _ _ hshape
    exact h.document hbinder hseparator

/-- The values of a statement are those of its filter. -/
theorem params_statement (c : Clauses) (shape : Shape) :
    Piece.params (c.statement shape) = Piece.params (c.filter.getD []) := by
  obtain ⟨kind, source, filter, order, limit, offset⟩ := c
  cases shape with
  | sql countProjection =>
    cases filter <;> cases limit <;>
      simp [Clauses.statement, Clauses.sql, Piece.params, Piece.params_append,
        apply_ite Piece.params]
  | document binder separator =>
    cases kind <;> cases filter <;> cases limit <;>
      simp [Clauses.statement, Clauses.document, Piece.params, Piece.params_append,
        apply_ite Piece.params]

end Clauses

/-- The fields of a query are written with names. -/
structure Query.Named (q : Query) : Prop where
  conditions : ∀ c ∈ comparisonsOf q.conditions, IsField c.field
  orderBy : ∀ item ∈ q.orderBy, IsField item.field

mutual

theorem Condition.Formed.comparisons {link : Link} {c : Condition} (h : c.Formed link) :
    ∀ x ∈ c.comparisons, x.Formed := by
  cases h with
  | compare h => simpa [Condition.comparisons] using h
  | group h => exact h.comparisons

theorem ChainFormed.comparisons {link : Link} {cs : List Condition} (h : ChainFormed link cs) :
    ∀ x ∈ comparisonsOf cs, x.Formed := by
  cases h with
  | last hc => simpa [comparisonsOf] using hc.comparisons
  | more hc _ hcs =>
    intro x hx
    rcases List.mem_append.1 hx with hx | hx
    · exact hc.comparisons x hx
    · exact hcs.comparisons x hx

end

theorem Query.Formed.comparisons {q : Query} (h : q.Formed) :
    ∀ x ∈ comparisonsOf q.conditions, x.Formed := by
  cases hcs : q.conditions with
  | nil => simp [comparisonsOf]
  | cons c cs => exact hcs ▸ (h.conditions (by simp [hcs])).comparisons

theorem Query.Formed.named {q : Query} (h : q.Formed) : q.Named where
  conditions c hc := (h.comparisons c hc).field
  orderBy := h.orderBy

/-- The fields of a query that was read have names, whatever page of it is asked for. -/
theorem Query.named_of_parse {text : String} {q : Query} (hq : Query.parse text = .ok q)
    (page : Option Page) : Query.Named { q with page := page } :=
  have h := (Query.parse_formed hq).named
  ⟨h.conditions, h.orderBy⟩

theorem Query.Named.appliedOrder {q : Query} (hq : q.Named) :
    ∀ item ∈ q.appliedOrder, IsField item.field := by
  unfold Query.appliedOrder
  split
  · exact hq.orderBy
  · simp

/-- The statement of a query with named fields has only neat text around its values. -/
theorem Query.Named.pieces_isNeat {q : Query} (hq : q.Named) {backend : Backend}
    {now : Time.Timestamp} {ps : List Piece} (h : q.pieces backend now = .ok ps) :
    ∀ p ∈ ps, p.IsNeat := by
  have hd := backend.isNeat_dialect
  obtain ⟨source, offset, filter, order, hsource, -, hfilter, horder, rfl⟩ :=
    Query.pieces_eq_ok_iff.1 h
  refine Clauses.IsNeat.statement ⟨hd.source _ _ hsource, ?_, ?_⟩ hd
  · intro ps hps
    rcases Compiler.filter_eq_ok_iff.1 hfilter with ⟨-, rfl⟩ | ⟨-, qs, hqs, rfl⟩
    · cases hps
    · cases hps
      exact Compiler.chain_isNeat hd hq.conditions hqs
  · exact Compiler.order_plain hd hq.appliedOrder horder

end NetQuery
