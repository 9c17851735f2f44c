import NetQuery.Proofs.Folding
import NetQuery.Proofs.Placeholders
import NetQuery.Service.Failure

/-!
# Casing never changes what a query becomes

A query keeps its fields as they were written. A backend gets every column in small letters, and the
catalog is asked in small letters, so the case of a field reaches nothing but the message of an
error. Together with what the lexer and the parser do, this gives the law of the module: a text in
another case is read alike, and what is read becomes the same statement.
-/

namespace NetQuery

/-! ## Fields -/

theorem Dialect.column_lower (d : Dialect) (name : String) :
    d.column (Text.lower name) = d.column name := by
  rw [column, column, Lexer.lower_lower]

theorem Entity.columnType?_lower (e : Entity) (name : String) :
    e.columnType? (Text.lower name) = e.columnType? name := by
  simp only [columnType?, Text.agree, Lexer.lower_lower]

/-- A field in small letters is taken apart into the same parts, in small letters. -/
theorem FieldRef.ofText_lower {f : String} (hf : IsField f) : ofText (Text.lower f) =
    ⟨(ofText f).function, (ofText f).args.map Text.lower⟩ := by
  cases hf with
  | column hname => rw [ofText_name hname, ofText_name hname.lower]; rfl
  | @call name args hname hne hargs =>
    have hargs' : ∀ arg ∈ args.map Text.lower, Lexer.IsName arg := by
      intro arg harg
      obtain ⟨a, ha, rfl⟩ := List.mem_map.1 harg
      exact (hargs a ha).lower
    rw [Parser.lower_call, ofText_call hname hne hargs,
      ofText_call hname.lower (by simpa using hne) hargs', Lexer.lower_lower]

/-- An error with the field that it names in small letters. -/
def CompileError.lowered : CompileError → CompileError
  | .invalidLiteral field operator fault => .invalidLiteral (Text.lower field) operator fault
  | e => e

namespace Compiler

variable {ctx : Context}

theorem renderField_lower {f : String} (hf : IsField f) :
    renderField ctx (Text.lower f) = renderField ctx f := by
  have hargs : (((FieldRef.ofText f).args.map Text.lower).map ctx.dialect.column) =
      (FieldRef.ofText f).args.map ctx.dialect.column := by
    simp [Dialect.column_lower]
  have hfirst : ctx.dialect.column (((FieldRef.ofText f).args.map Text.lower).head?.getD "") =
      ctx.dialect.column ((FieldRef.ofText f).args.head?.getD "") := by
    cases (FieldRef.ofText f).args with
    | nil => rfl
    | cons arg args => exact ctx.dialect.column_lower arg
  simp only [renderField, FieldRef.ofText_lower hf, FieldRef.column, hargs, hfirst,
    List.length_map, Dialect.column_lower, Entity.columnType?_lower]

theorem renderField_mapError (f : String) :
    (renderField ctx f).mapError CompileError.lowered = renderField ctx f := by
  unfold renderField
  simp only
  split
  · rfl
  · split
    · rfl
    · rfl
    · split <;> rfl

theorem symbol_lowered (d : Dialect) (c : Comparison) :
    symbol d c.lowered = (symbol d c).mapError CompileError.lowered := by
  unfold symbol Comparison.lowered
  cases d.comparison c.operator <;> rfl

/-- The field is named in no fault of an operand but that it is no list. -/
theorem operation_lowered (c : Comparison) (field : RenderedField) :
    operation ctx c.lowered field = (operation ctx c field).mapError CompileError.lowered := by
  obtain ⟨f, operator, value⟩ := c
  unfold operation Comparison.lowered
  simp only
  split
  next => rfl
  next => rfl
  next => rw [mapError_bind, mapError_mapError]; rfl
  next => rw [mapError_bind, mapError_mapError]; rfl
  next => rw [mapError_bind, mapError_mapError]; rfl
  next => simp only [mapError_bind, mapError_mapError]; rfl
  next => rfl
  next => rfl
  next =>
    simp only [mapError_bind, mapError_mapError, ← symbol_lowered]
    rfl

theorem comparison_lowered {c : Comparison} (hc : IsField c.field) :
    comparison ctx c.lowered = (comparison ctx c).mapError CompileError.lowered := by
  simp only [comparison, mapError_bind, mapError_mapError, renderField_mapError,
    ← operation_lowered]
  rw [Comparison.lowered, renderField_lower hc]
  rfl

mutual

theorem condition_lowered {c : Condition} (hc : ∀ x ∈ c.comparisons, IsField x.field) :
    condition ctx c.lowered = (condition ctx c).mapError CompileError.lowered := by
  cases c with
  | compare link c =>
    have hfield : IsField c.field := hc c (by simp [Condition.comparisons])
    rw [Condition.lowered, condition, condition, mapError_bind, comparison_lowered hfield]
    rfl
  | group link members =>
    rw [Condition.lowered, condition, condition, mapError_bind, chain_lowered hc]
    rfl

/-- A chain with its fields in small letters becomes the same, or fails in the same place. -/
theorem chain_lowered {cs : List Condition} (hcs : ∀ x ∈ comparisonsOf cs, IsField x.field) :
    chain ctx (loweredOf cs) = (chain ctx cs).mapError CompileError.lowered := by
  cases cs with
  | nil => rfl
  | cons c cs =>
    rw [comparisonsOf] at hcs
    have hc := condition_lowered fun x hx => hcs x (List.mem_append_left _ hx)
    have hrest := chain_lowered fun x hx => hcs x (List.mem_append_right _ hx)
    simp only [loweredOf, chain, mapError_bind, hc, hrest]
    rfl

end

theorem filter_lowered {cs : List Condition} (hcs : ∀ x ∈ comparisonsOf cs, IsField x.field) :
    Compiler.filter ctx (loweredOf cs) =
      (Compiler.filter ctx cs).mapError CompileError.lowered := by
  cases cs with
  | nil => rfl
  | cons c cs =>
    have hchain : chain ctx (loweredOf (c :: cs)) =
        (chain ctx (c :: cs)).mapError CompileError.lowered := chain_lowered hcs
    rw [loweredOf] at hchain ⊢
    simp only [Compiler.filter, hchain]
    cases chain ctx (c :: cs) <;> rfl

theorem order_lowered {items : List OrderItem} (hitems : ∀ item ∈ items, IsField item.field) :
    order ctx (items.map OrderItem.lowered) =
      (order ctx items).mapError CompileError.lowered := by
  induction items with
  | nil => rfl
  | cons item items ih =>
    have hfield : renderField ctx (Text.lower item.field) = renderField ctx item.field :=
      renderField_lower (hitems item List.mem_cons_self)
    have hrest := ih fun x hx => hitems x (List.mem_cons_of_mem _ hx)
    simp only [List.map_cons, order, OrderItem.lowered, mapError_bind, hfield, hrest,
      renderField_mapError]
    rfl

end Compiler

namespace Query

variable {q : Query} {backend : Backend} {mode : Mode} {now : Time.Timestamp}

theorem lower_column_lowered {f : String} (hf : IsField f) :
    Text.lower (FieldRef.ofText (Text.lower f)).column = Text.lower (FieldRef.ofText f).column := by
  rw [FieldRef.ofText_lower hf, FieldRef.column, FieldRef.column]
  cases (FieldRef.ofText f).args with
  | nil => rfl
  | cons arg args => exact Lexer.lower_lower arg

theorem viz_lowered (hq : q.Named) : q.lowered.viz = q.viz := by
  have htime : q.lowered.timeColumn? = q.timeColumn? := by
    unfold timeColumn? lowered
    cases hitems : q.orderBy with
    | nil => rfl
    | cons item items =>
      have hf := hq.orderBy item (hitems ▸ List.mem_cons_self)
      simp only [List.map_cons, OrderItem.lowered, lower_column_lowered hf]
  unfold viz
  rw [htime]
  rfl

theorem appliedOrder_lowered : q.lowered.appliedOrder = q.appliedOrder.map OrderItem.lowered := by
  cases hkind : q.kind <;> simp [appliedOrder, lowered, hkind]

theorem clauses_lowered (hq : q.Named) (d : Dialect) : q.lowered.clauses d now =
    (q.clauses d now).mapError CompileError.lowered := by
  have hfilter : Compiler.filter ⟨d, q.entity, now⟩ (loweredOf q.conditions) =
      (Compiler.filter ⟨d, q.entity, now⟩ q.conditions).mapError CompileError.lowered :=
    Compiler.filter_lowered hq.conditions
  have horder : Compiler.order ⟨d, q.entity, now⟩ (q.appliedOrder.map OrderItem.lowered) =
      (Compiler.order ⟨d, q.entity, now⟩ q.appliedOrder).mapError CompileError.lowered :=
    Compiler.order_lowered hq.appliedOrder
  rw [← appliedOrder_lowered] at horder
  have hsource : d.source q.lowered.entity = d.source q.entity := rfl
  simp only [clauses, hsource]
  cases d.source q.entity with
  | none => rfl
  | some source =>
    have hoffset : Paging.offsetOf q.lowered.appliedPage q.lowered.appliedLimit =
        Paging.offsetOf q.appliedPage q.appliedLimit := rfl
    simp only [hoffset]
    cases Paging.offsetOf q.appliedPage q.appliedLimit with
    | error fault => rfl
    | ok offset =>
      change Compiler.filter ⟨d, q.entity, now⟩ (loweredOf q.conditions) >>= _ = _
      rw [hfilter]
      cases Compiler.filter ⟨d, q.entity, now⟩ q.conditions with
      | error e => rfl
      | ok filter =>
        change Compiler.order ⟨d, q.entity, now⟩ q.lowered.appliedOrder >>= _ = _
        rw [horder]
        cases Compiler.order ⟨d, q.entity, now⟩ q.appliedOrder <;> rfl

theorem pieces_lowered (hq : q.Named) : q.lowered.pieces backend now =
    (q.pieces backend now).mapError CompileError.lowered := by
  rw [pieces, pieces, mapError_bind, clauses_lowered hq]
  rfl

/-- A query with its fields in small letters becomes the same, or fails in the same way. -/
theorem compile_lowered (hq : q.Named) : q.lowered.compile backend mode now =
    (q.compile backend mode now).mapError CompileError.lowered := by
  rw [compile, compile, mapError_bind, pieces_lowered hq, viz_lowered hq]
  rfl

end Query

/-! ## Texts -/

/-- A fault keeps its kind and its place when the names in it are made small. -/
theorem GrammarFault.toFailure_lowered (fault : GrammarFault) (finish : Position) :
    (fault.lowered.toParseError finish).toFailure.kind =
        (fault.toParseError finish).toFailure.kind ∧
      (fault.lowered.toParseError finish).toFailure.position? =
        (fault.toParseError finish).toFailure.position? := by
  cases fault with
  | expected what left => cases left <;> exact ⟨rfl, rfl⟩
  | _ => exact ⟨rfl, rfl⟩

theorem CompileError.kind_lowered (e : CompileError) :
    e.lowered.toFailure.kind = e.toFailure.kind := by
  cases e <;> rfl

theorem TokenStream.positions_eq {stream stream' : TokenStream}
    (h : stream'.lowered = stream.lowered) :
    stream'.tokens.map Token.position = stream.tokens.map Token.position ∧
      stream'.finish = stream.finish := by
  simp only [TokenStream.lowered, TokenStream.mk.injEq] at h
  refine ⟨?_, h.2⟩
  have hpositions := congrArg (List.map Token.position) h.1
  simpa only [List.map_map, Function.comp_def, Token.lowered] using hpositions

namespace Query

/-- Tokens that are the same in small letters are read as queries that are, or fail alike. -/
theorem query_of_lowered_eq {stream stream' : TokenStream}
    (h : stream'.lowered = stream.lowered) :
    (∃ q q', stream.query = .ok q ∧ stream'.query = .ok q' ∧ q.lowered = q'.lowered) ∨
      ∃ e e', stream.query = .error e ∧ stream'.query = .error e' ∧
        e.toFailure.kind = e'.toFailure.kind ∧
        e.toFailure.position? = e'.toFailure.position? := by
  simp only [TokenStream.lowered, TokenStream.mk.injEq] at h
  have hfolds := Parser.query_folds stream.tokens
  rw [← h.1, Parser.query_folds stream'.tokens] at hfolds
  simp only [TokenStream.query, h.2]
  cases hq : Parser.query stream.tokens with
  | error fault =>
    rw [hq] at hfolds
    cases hq' : Parser.query stream'.tokens with
    | error fault' =>
      rw [hq'] at hfolds
      have hfault : fault'.lowered = fault.lowered := Except.error.inj hfolds
      have hkeep := fault.toFailure_lowered stream.finish
      have hkeep' := fault'.toFailure_lowered stream.finish
      rw [hfault] at hkeep'
      exact Or.inr ⟨_, _, rfl, rfl, hkeep.1.symm.trans hkeep'.1, hkeep.2.symm.trans hkeep'.2⟩
    | ok q' =>
      rw [hq'] at hfolds
      cases hfolds
  | ok q =>
    rw [hq] at hfolds
    cases hq' : Parser.query stream'.tokens with
    | error fault' =>
      rw [hq'] at hfolds
      cases hfolds
    | ok q' =>
      rw [hq'] at hfolds
      exact Or.inl ⟨q, q', rfl, rfl, (Except.ok.inj hfolds).symm⟩

/-- Queries that are the same in small letters become the same, or fail alike. -/
theorem compile_of_lowered_eq {q q' : Query} (hq : q.Named) (hq' : q'.Named)
    (h : q.lowered = q'.lowered) (backend : Backend) (mode : Mode) (now : Time.Timestamp) :
    (∃ a, q.compile backend mode now = .ok a ∧ q'.compile backend mode now = .ok a) ∨
      ∃ e e', q.compile backend mode now = .error e ∧ q'.compile backend mode now = .error e' ∧
        e.lowered = e'.lowered := by
  have hsame : (q.compile backend mode now).mapError CompileError.lowered =
      (q'.compile backend mode now).mapError CompileError.lowered := by
    rw [← compile_lowered hq, ← compile_lowered hq', h]
  cases ha : q.compile backend mode now with
  | error e =>
    rw [ha] at hsame
    cases ha' : q'.compile backend mode now with
    | error e' =>
      rw [ha'] at hsame
      exact Or.inr ⟨e, e', rfl, rfl, Except.error.inj hsame⟩
    | ok a' =>
      rw [ha'] at hsame
      cases hsame
  | ok a =>
    rw [ha] at hsame
    have ha' := mapError_eq_ok_iff.1 hsame.symm
    exact Or.inl ⟨a, rfl, ha'⟩

/-- Casing never changes what a text becomes. If the case of letters is changed outside its text
literals, the tokens stay in their places; it is read as a query or not as before, and then with an
error of the same kind in the same place; and the query becomes the same artifact as before, or
fails with the same error up to the case of the field that it names. -/
theorem compile_recased {s t : String} {stream : TokenStream} (hs : tokenize s = .ok stream)
    (h : Lexer.recases 0 s.toList t.toList) :
    (∃ stream', tokenize t = .ok stream' ∧
      stream'.tokens.map Token.position = stream.tokens.map Token.position ∧
      stream'.finish = stream.finish) ∧
    ((∃ q q', Query.parse s = .ok q ∧ Query.parse t = .ok q' ∧
        ∀ (backend : Backend) (mode : Mode) (now : Time.Timestamp),
          (∃ a, q.compile backend mode now = .ok a ∧ q'.compile backend mode now = .ok a) ∨
          ∃ e e', q.compile backend mode now = .error e ∧
            q'.compile backend mode now = .error e' ∧
            e.toFailure.kind = e'.toFailure.kind ∧ e.lowered = e'.lowered) ∨
      ∃ e e', Query.parse s = .error e ∧ Query.parse t = .error e' ∧
        e.toFailure.kind = e'.toFailure.kind ∧
        e.toFailure.position? = e'.toFailure.position?) := by
  obtain ⟨stream', ht, hlowered⟩ := tokenize_recases h hs
  have hparse : Query.parse s = stream.query := by rw [Query.parse, hs]
  have hparse' : Query.parse t = stream'.query := by rw [Query.parse, ht]
  refine ⟨⟨stream', ht, TokenStream.positions_eq hlowered⟩, ?_⟩
  rcases query_of_lowered_eq hlowered with ⟨q, q', hq, hq', hsame⟩ | ⟨e, e', he, he', hkind⟩
  · left
    refine ⟨q, q', hparse.trans hq, hparse'.trans hq', fun backend mode now => ?_⟩
    have hnamed := (Query.parse_formed (hparse.trans hq)).named
    have hnamed' := (Query.parse_formed (hparse'.trans hq')).named
    rcases compile_of_lowered_eq hnamed hnamed' hsame backend mode now with
      ha | ⟨e, e', he, he', herror⟩
    · exact Or.inl ha
    · refine Or.inr ⟨e, e', he, he', ?_, herror⟩
      rw [← e.kind_lowered, herror, e'.kind_lowered]
  · exact Or.inr ⟨e, e', hparse.trans he, hparse'.trans he', hkind⟩

/-- Keywords, an entity, functions and columns in another case, around a literal that keeps its. -/
theorem compile_recased_calls : ∃ q q' a,
    Query.parse "show devices where lower(Host) = 'Ab' order by last_Seen" = .ok q ∧
    Query.parse "Show DEVICES where LOWER(hOST) = 'Ab' ORDER by LAST_SEEN" = .ok q' ∧
    q.compile .clickHouse .literal (.midnight ⟨2024, 1, 1⟩) = .ok a ∧
    q'.compile .clickHouse .literal (.midnight ⟨2024, 1, 1⟩) = .ok a ∧
    a.statement = "SELECT * FROM devices WHERE lower(host) = 'Ab' ORDER BY last_seen ASC" := by
  have hcase : Lexer.recases 0 "show devices where lower(Host) = 'Ab' order by last_Seen".toList
      "Show DEVICES where LOWER(hOST) = 'Ab' ORDER by LAST_SEEN".toList := by decide +kernel
  obtain ⟨q, a, hq, ha, hstatement⟩ := exists_of_statement? (show statement?
      "show devices where lower(Host) = 'Ab' order by last_Seen" .clickHouse .literal
      (.midnight ⟨2024, 1, 1⟩) = some
      "SELECT * FROM devices WHERE lower(host) = 'Ab' ORDER BY last_seen ASC" by decide +kernel)
  obtain ⟨stream, hstream⟩ : ∃ stream, tokenize
      "show devices where lower(Host) = 'Ab' order by last_Seen" = .ok stream := by
    unfold Query.parse at hq
    split at hq
    · cases hq
    · exact ⟨_, ‹_›⟩
  rcases (compile_recased hstream hcase).2 with ⟨p, q', hp, hq', hcompile⟩ | ⟨e, _, he, _⟩
  · obtain rfl : q = p := Except.ok.inj (hq.symm.trans hp)
    rcases hcompile .clickHouse .literal (.midnight ⟨2024, 1, 1⟩) with ⟨b, hb, hb'⟩ | ⟨e, _, he, _⟩
    · obtain rfl : a = b := Except.ok.inj (ha.symm.trans hb)
      exact ⟨q, q', a, hq, hq', ha, hb', hstatement⟩
    · rw [ha] at he
      cases he
  · rw [hq] at he
    cases he

end Query

end NetQuery
