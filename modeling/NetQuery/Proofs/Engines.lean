import NetQuery.Proofs.Readback
import NetQuery.Proofs.Transfer

/-!
# The two SQL engines

The columnar and the streaming engine are written for in one dialect. They differ in where an entity
is stored and in the name of the date function, and nowhere else: the statement for the one is the
statement for the other with these two replaced as text. Replacing as text touches no name of the
user, since columns are written in small letters and the columnar engine's date function is not; and
no two parts of a statement make up a call of that function only together.
-/

namespace NetQuery

/-! ## Replacing parts of a text -/

namespace Text

/-- The text with each occurrence of `old` replaced, after the characters that an earlier occurrence
has taken. -/
def replaceFrom (old new : List Char) : (taken : Nat) → List Char → List Char
  | _, [] => []
  | taken + 1, _ :: cs => replaceFrom old new taken cs
  | 0, c :: cs =>
    if old.isPrefixOf (c :: cs) then new ++ replaceFrom old new (old.length - 1) cs
    else c :: replaceFrom old new 0 cs

/-- The text with each occurrence of `old` replaced by `new`. -/
def replaceAll (old new text : String) : String :=
  String.ofList (replaceFrom old.toList new.toList 0 text.toList)

/-- The text with the first occurrence of `old` replaced. -/
def replaceOnce (old new : List Char) : List Char → List Char
  | [] => []
  | c :: cs =>
    if old.isPrefixOf (c :: cs) then new ++ (c :: cs).drop old.length
    else c :: replaceOnce old new cs

/-- The text with the first occurrence of `old` replaced by `new`. -/
def replaceFirst (old new text : String) : String :=
  String.ofList (replaceOnce old.toList new.toList text.toList)

variable {old new : List Char}

theorem replaceFrom_eq_drop (taken : Nat) (cs : List Char) :
    replaceFrom old new taken cs = replaceFrom old new 0 (cs.drop taken) := by
  induction cs generalizing taken with
  | nil => cases taken <;> simp [replaceFrom]
  | cons c cs ih =>
    cases taken with
    | zero => rfl
    | succ taken => rw [replaceFrom, ih, List.drop_succ_cons]

theorem replaceFrom_append (hne : old ≠ []) (cs : List Char) :
    replaceFrom old new 0 (old ++ cs) = new ++ replaceFrom old new 0 cs := by
  obtain ⟨c, rest, rfl⟩ := List.exists_cons_of_ne_nil hne
  have hbegins : (c :: rest).isPrefixOf (c :: (rest ++ cs)) :=
    List.isPrefixOf_iff_prefix.2 (List.prefix_append (c :: rest) cs)
  rw [List.cons_append, replaceFrom, if_pos hbegins, replaceFrom_eq_drop]
  simp

theorem replaceFrom_cons {c : Char} {cs : List Char} (h : ¬ old <+: c :: cs) :
    replaceFrom old new 0 (c :: cs) = c :: replaceFrom old new 0 cs := by
  rw [replaceFrom, if_neg (mt List.isPrefixOf_iff_prefix.1 h)]

end Text

/-! ## Calls of the date function -/

/-- The text with each call of the columnar engine's date function made one of the streaming
engine's. -/
def restreamed (cs : List Char) : List Char :=
  Text.replaceFrom "toDate(".toList "to_date(".toList 0 cs

/-- A text that does not complete a call of the date function that starts before it. -/
def Fresh (rest : List Char) : Prop := rest.head? ≠ some 'D' ∧ ¬ ['o', 'D'] <+: rest

/-- Replacing turns one part of a statement into the other, whatever follows. -/
def Turns (s t : List Char) : Prop :=
  ∀ rest, Fresh rest → Fresh (s ++ rest) ∧ restreamed (s ++ rest) = t ++ restreamed rest

theorem fresh_cons {c : Char} (hc : c ≠ 'D') {rest : List Char} (h : Fresh rest) :
    Fresh (c :: rest) := by
  refine ⟨by simpa using hc, fun hbegins => ?_⟩
  obtain ⟨-, s, hs⟩ := List.cons_prefix_cons.1 hbegins
  exact h.1 (by simp [← hs])

theorem restreamed_cons {c : Char} {rest : List Char} (h : ¬ ['o', 'D'] <+: rest) :
    restreamed (c :: rest) = c :: restreamed rest := by
  refine Text.replaceFrom_cons fun hbegins => h ?_
  exact List.IsPrefix.trans (by decide) (List.cons_prefix_cons.1 hbegins).2

namespace Turns

variable {s s' t t' : List Char}

theorem nil : Turns [] [] := fun _ hrest => ⟨hrest, rfl⟩

theorem append (h : Turns s t) (h' : Turns s' t') : Turns (s ++ s') (t ++ t') := by
  intro rest hrest
  obtain ⟨hfresh', heq'⟩ := h' rest hrest
  obtain ⟨hfresh, heq⟩ := h (s' ++ rest) hfresh'
  rw [List.append_assoc, List.append_assoc]
  exact ⟨hfresh, by rw [heq, heq']⟩

theorem char {c : Char} (hc : c ≠ 'D') : Turns [c] [c] :=
  fun _ hrest => ⟨fresh_cons hc hrest, restreamed_cons hrest.2⟩

theorem pair {c : Char} (hc : c ≠ 'D') (ho : c ≠ 'o') : Turns [c, 'D'] [c, 'D'] := by
  intro rest hrest
  refine ⟨⟨by simpa using hc, by simpa using fun h => absurd h.symm ho⟩, ?_⟩
  have hd : ¬ ['o', 'D'] <+: 'D' :: rest := by simp
  exact (restreamed_cons hd).trans (congrArg (c :: ·) (restreamed_cons hrest.2))

theorem call : Turns "toDate(".toList "to_date(".toList :=
  fun rest _ => ⟨⟨by simp, by simp⟩, Text.replaceFrom_append (by decide) rest⟩

/-- A text without the letter that the date function is known by stays as it is. -/
theorem of_forall (h : ∀ c ∈ s, c ≠ 'D') : Turns s s := by
  induction s with
  | nil => exact nil
  | cons c s ih =>
    exact (char (h c List.mem_cons_self)).append (ih fun d hd => h d (List.mem_cons_of_mem _ hd))

/-- A text in which that letter stands only right after a letter that no call has before it. -/
def steady : List Char → Bool
  | [] => true
  | [c] => c ≠ 'D'
  | c :: d :: cs =>
    if d = 'D' then c ≠ 'D' && c ≠ 'o' && steady cs else c ≠ 'D' && steady (d :: cs)

theorem of_steady (h : steady s) : Turns s s := by
  fun_induction steady s with
  | case1 => exact nil
  | case2 c => exact char (by simpa using h)
  | case3 c cs ih =>
    obtain ⟨⟨hc, ho⟩, hcs⟩ : (c ≠ 'D' ∧ c ≠ 'o') ∧ steady cs := by simpa using h
    exact (pair hc ho).append (ih hcs)
  | case4 c d cs _ ih =>
    obtain ⟨hc, hcs⟩ : c ≠ 'D' ∧ steady (d :: cs) := by simpa using h
    exact (char hc).append (ih hcs)

theorem lower (s : String) : Turns (Text.lower s).toList (Text.lower s).toList := by
  refine of_forall fun c hc => ?_
  rw [Lexer.toList_lower] at hc
  obtain ⟨d, -, rfl⟩ := List.mem_map.1 hc
  rintro hd
  have hupper : d.toLower.isUpper = false := by simp
  rw [hd] at hupper
  exact absurd hupper (by decide)

theorem digits (n : Nat) : Turns (toString n).toList (toString n).toList := by
  refine of_forall fun c hc => ?_
  rintro rfl
  have hdigit : Number.isDigit 'D' := by
    rw [Nat.toString_eq_repr, Nat.toList_repr] at hc
    exact Nat.isDigit_of_mem_toDigits (by decide) (by decide) hc
  exact absurd hdigit (by decide)

theorem join {ss ts : List String} (h : List.Forall₂ (fun s t => Turns s.toList t.toList) ss ts) :
    Turns (Text.join ", " ss).toList (Text.join ", " ts).toList := by
  induction h with
  | nil => exact nil
  | cons hs hrest ih =>
    cases hrest with
    | nil => exact hs
    | cons =>
      simp only [Text.join, String.toList_append] at ih ⊢
      exact (hs.append (of_steady (by decide))).append ih

end Turns

/-! ## Pieces -/

namespace Piece

/-- The same piece of a statement for the two engines. -/
inductive Turns : Piece → Piece → Prop where
  | text {s t : String} (h : NetQuery.Turns s.toList t.toList) : Turns (.text s) (.text t)
  | param (p : Param) : Turns (.param p) (.param p)

variable {ps qs : List Piece}

theorem Turns.chars (h : List.Forall₂ Turns ps qs) (number : Nat) :
    NetQuery.Turns (Piece.chars .clickHouse number ps) (Piece.chars .proton number qs) := by
  induction h generalizing number with
  | nil =>
    rw [chars_nil, chars_nil]
    exact .nil
  | cons hpiece _ ih =>
    cases hpiece with
    | text hs =>
      rw [chars_text, chars_text]
      exact hs.append (ih number)
    | param p =>
      rw [chars_param, chars_param]
      have hmark : NetQuery.Turns (Dialect.clickHouse.placeholder number).toList
          (Dialect.proton.placeholder number).toList := by
        rw [Dialect.placeholder, Dialect.placeholder, String.toList_append, String.toList_append]
        exact (NetQuery.Turns.of_steady (by decide)).append (.digits number)
      exact hmark.append (ih (number + 1))

theorem Turns.params (h : List.Forall₂ Turns ps qs) : Piece.params qs = Piece.params ps := by
  induction h with
  | nil => rfl
  | cons hpiece _ ih =>
    cases hpiece with
    | text => exact ih
    | param p => exact congrArg (p :: ·) ih

end Piece

/-! ## Outcomes -/

/-- The same error with another backend in it, if it names one. -/
def CompileError.on (backend : Backend) : CompileError → CompileError
  | .unsupportedEntity entity _ => .unsupportedEntity entity backend
  | .unsupportedFunction function _ => .unsupportedFunction function backend
  | e => e

/-- Outcomes of one part of compiling for the two engines: both succeed with related results, or
both fail with one error, each under its own name. -/
inductive Beside {α β : Type} (R : α → β → Prop) : Compiled α → Compiled β → Prop where
  | ok {a : α} {b : β} (h : R a b) : Beside R (.ok a) (.ok b)
  | error (e : CompileError) : Beside R (.error e) (.error (e.on .proton))

namespace Beside

variable {α β γ δ : Type} {R : α → β → Prop} {S : γ → δ → Prop} {x : Compiled α} {y : Compiled β}

theorem bind (h : Beside R x y) {f : α → Compiled γ} {g : β → Compiled δ}
    (hf : ∀ a b, R a b → Beside S (f a) (g b)) : Beside S (x >>= f) (y >>= g) := by
  cases h with
  | ok hab => exact hf _ _ hab
  | error e => exact .error e

/-- A step that is the same for both engines, and whose errors name neither. -/
theorem same {R : α → α → Prop} (hok : ∀ a, x = .ok a → R a a)
    (herror : ∀ e, x = .error e → e.on .proton = e) : Beside R x x := by
  cases hx : x with
  | ok a => exact .ok (hok a hx)
  | error e =>
    have hside : Beside R (.error e) (.error (e.on .proton)) := .error e
    rwa [herror e hx] at hside

end Beside

/-! ## Comparisons -/

namespace Compiler

/-- One field for the two engines. -/
structure RenderedField.Turns (f g : RenderedField) : Prop where
  expression : NetQuery.Turns f.expression.toList g.expression.toList
  type : g.type = f.type
  datePart : f.datePart = false ∧ g.datePart = false

variable {entity : Entity} {now : Time.Timestamp}

/-- The engines know the same functions, and only the date function has two names. -/
theorem function_beside (f : String) :
    (Dialect.clickHouse.function f = none ∧ Dialect.proton.function f = none) ∨
      ∃ word word', Dialect.clickHouse.function f = some (.call word) ∧
        Dialect.proton.function f = some (.call word') ∧
        Turns (word ++ "(").toList (word' ++ "(").toList := by
  simp only [Dialect.clickHouse, Dialect.proton, Dialect.sql]
  split
  · exact Or.inr ⟨"toDate", "to_date", rfl, rfl, .call⟩
  · exact Or.inr ⟨"lower", "lower", rfl, rfl, .of_steady (by decide)⟩
  · exact Or.inr ⟨"upper", "upper", rfl, rfl, .of_steady (by decide)⟩
  · exact Or.inl ⟨rfl, rfl⟩

theorem turns_arguments (args : List String) :
    Turns (Text.join ", " (args.map Dialect.clickHouse.column)).toList
      (Text.join ", " (args.map Dialect.proton.column)).toList := by
  refine .join ?_
  induction args with
  | nil => exact .nil
  | cons arg args ih => exact .cons (.lower arg) ih

theorem renderField_beside (f : String) : Beside RenderedField.Turns
    (renderField ⟨.clickHouse, entity, now⟩ f) (renderField ⟨.proton, entity, now⟩ f) := by
  unfold renderField
  simp only
  cases (FieldRef.ofText f).function with
  | none => exact .ok ⟨.lower f, rfl, rfl, rfl⟩
  | some function =>
    simp only
    rcases function_beside function with ⟨hnone, hnone'⟩ | ⟨word, word', hword, hword', hturns⟩
    · rw [hnone, hnone']
      exact .error (.unsupportedFunction function .clickHouse)
    · rw [hword, hword']
      refine .ok ⟨?_, rfl, rfl, rfl⟩
      rw [String.toList_append, String.toList_append (s := word' ++ "(" ++ _),
        String.toList_append, String.toList_append (s := word' ++ "(")]
      exact (hturns.append (turns_arguments _)).append (.of_steady (by decide))

theorem operandPieces_on {ctx : Context} {c : Comparison} {field : RenderedField}
    {e : CompileError} (h : operandPieces ctx c field = .error e) (backend : Backend) :
    e.on backend = e := by
  have hbind : ∀ {α : Type} {x : Except BindError α} {e : CompileError},
      x.mapError CompileError.bind = .error e → e.on backend = e := by
    intro α x e hx
    obtain ⟨e, -, rfl⟩ := mapError_eq_error_iff.1 hx
    rfl
  unfold operandPieces at h
  simp only at h
  split at h
  next => cases h
  next => cases h
  next => exact hbind (map_eq_error_iff.1 h)
  next =>
    rcases bind_eq_error_iff.1 h with hlower | ⟨lower, -, h⟩
    · exact hbind hlower
    · rcases bind_eq_error_iff.1 h with hupper | ⟨upper, -, h⟩
      · exact hbind hupper
      · cases h
  next =>
    cases h
    rfl
  next =>
    cases h
    rfl
  next => exact hbind (map_eq_error_iff.1 h)
  next => exact hbind (map_eq_error_iff.1 h)
  next => exact hbind (map_eq_error_iff.1 h)

theorem Scalar.turns {ctx : Context} (hd : ctx.dialect.IsSql) {field : RenderedField}
    (hpart : field.datePart = false) {v : Value} {ps : List Piece} (h : Scalar ctx field v ps) :
    List.Forall₂ Piece.Turns ps ps := by
  rcases h.sql_cases hd hpart with ⟨k, -, rfl⟩ | ⟨-, param, rfl⟩
  · refine .cons (.text (.of_steady ?_)) .nil
    cases k <;> decide
  · exact .cons (.param param) .nil

theorem Operands.turns {ctx : Context} (hd : ctx.dialect.IsSql) {field : RenderedField}
    (hpart : field.datePart = false) {op : Operator} {v : Value} {operand upper : List Piece}
    (h : Operands ctx field op v operand upper) :
    List.Forall₂ Piece.Turns operand operand ∧ List.Forall₂ Piece.Turns upper upper := by
  cases h with
  | isNull => exact ⟨.nil, .nil⟩
  | isNotNull => exact ⟨.nil, .nil⟩
  | compare _ h => exact ⟨h.turns hd hpart, .nil⟩
  | like h => exact ⟨h.turns hd hpart, .nil⟩
  | contains h => exact ⟨h.turns hd hpart, .nil⟩
  | isIn h => exact ⟨.cons (.param _) .nil, .nil⟩
  | between hlow hhigh => exact ⟨hlow.turns hd hpart, hhigh.turns hd hpart⟩

/-- The fixed text of a slot stays as it is. -/
def slotSteady : Slot → Bool
  | .text s => Turns.steady s.toList
  | _ => true

theorem steady_template (op : Operator) :
    ∀ slot ∈ Dialect.clickHouse.template op, slotSteady slot := by
  have hall : Operator.all.all fun op => (Dialect.clickHouse.template op).all slotSteady := by
    decide +kernel
  exact List.all_eq_true.1 (List.all_eq_true.1 hall op op.mem_all)

theorem fill_turns {template : Template} (htemplate : ∀ slot ∈ template, slotSteady slot)
    {f g : RenderedField} (hfield : f.Turns g) {operand upper : List Piece}
    (hoperand : List.Forall₂ Piece.Turns operand operand)
    (hupper : List.Forall₂ Piece.Turns upper upper) :
    List.Forall₂ Piece.Turns (fill template f operand upper) (fill template g operand upper) := by
  unfold fill Template.fill
  induction template with
  | nil => exact .nil
  | cons slot template ih =>
    have hrest := ih fun slot hslot => htemplate slot (List.mem_cons_of_mem _ hslot)
    rw [List.flatMap_cons, List.flatMap_cons]
    refine List.rel_append ?_ hrest
    cases slot with
    | text s => exact .cons (.text (.of_steady (htemplate _ List.mem_cons_self))) .nil
    | field => exact .cons (.text hfield.expression) .nil
    | operand => exact hoperand
    | upper => exact hupper

theorem operation_beside (c : Comparison) {f g : RenderedField} (hfield : f.Turns g) :
    Beside (List.Forall₂ Piece.Turns) (operation ⟨.clickHouse, entity, now⟩ c f)
      (operation ⟨.proton, entity, now⟩ c g) := by
  -- Values and date keywords are the same for both, so only the field can differ.
  have hsame : operandPieces ⟨.proton, entity, now⟩ c g =
      operandPieces ⟨.clickHouse, entity, now⟩ c f := by
    refine operandPieces_congr hfield.type fun forced word _ => ?_
    simp only [scalar, hfield.datePart.1, hfield.datePart.2]
    rfl
  have htemplate : Dialect.proton.template c.operator = Dialect.clickHouse.template c.operator := by
    cases c.operator <;> rfl
  have hd : (⟨.clickHouse, entity, now⟩ : Context).dialect.IsSql := Or.inl rfl
  rw [operation_eq_map, operation_eq_map, hsame, htemplate]
  cases hoperands : operandPieces ⟨.clickHouse, entity, now⟩ c f with
  | error e =>
    have hside : Beside (List.Forall₂ Piece.Turns) (.error e) (.error (e.on .proton)) := .error e
    rwa [operandPieces_on hoperands] at hside
  | ok operands =>
    obtain ⟨hoperand, hupper⟩ := (operandPieces_cases hoperands).turns hd hfield.datePart.1
    exact .ok (fill_turns (steady_template c.operator) hfield hoperand hupper)

theorem comparison_beside (c : Comparison) : Beside (List.Forall₂ Piece.Turns)
    (comparison ⟨.clickHouse, entity, now⟩ c) (comparison ⟨.proton, entity, now⟩ c) := by
  refine (renderField_beside c.field).bind fun f g hfield => ?_
  have hcheck : checkLiteral Dialect.proton c.operator c.value g.type =
      checkLiteral Dialect.clickHouse c.operator c.value f.type := by
    rw [hfield.type]
    rfl
  simp only [hcheck]
  refine Beside.bind (R := fun _ _ => True) (.same (fun _ _ => trivial) fun e he => ?_)
    fun _ _ _ => operation_beside c hfield
  obtain ⟨fault, -, rfl⟩ := mapError_eq_error_iff.1 he
  rfl

/-! ## Clauses -/

theorem linkPieces_turns (link : Link) : List.Forall₂ Piece.Turns
    (linkPieces .clickHouse link) (linkPieces .proton link) := by
  cases link with
  | first => exact .nil
  | and => exact .cons (.text (.of_steady (by decide))) .nil
  | or => exact .cons (.text (.of_steady (by decide))) .nil

mutual

theorem condition_beside (c : Condition) : Beside (List.Forall₂ Piece.Turns)
    (condition ⟨.clickHouse, entity, now⟩ c) (condition ⟨.proton, entity, now⟩ c) := by
  cases c with
  | compare link c =>
    rw [condition, condition]
    exact (comparison_beside c).bind fun ps qs h => .ok (List.rel_append (linkPieces_turns link) h)
  | group link members =>
    rw [condition, condition]
    refine (chain_beside members).bind fun ps qs h => .ok ?_
    refine List.rel_append (linkPieces_turns link) (.cons (.text (.of_steady (by decide))) ?_)
    exact List.rel_append h (.cons (.text (.of_steady (by decide))) .nil)

theorem chain_beside (cs : List Condition) : Beside (List.Forall₂ Piece.Turns)
    (chain ⟨.clickHouse, entity, now⟩ cs) (chain ⟨.proton, entity, now⟩ cs) := by
  cases cs with
  | nil => exact .ok .nil
  | cons c cs =>
    rw [chain, chain]
    refine (condition_beside c).bind fun ps qs h => ?_
    exact (chain_beside cs).bind fun ps' qs' h' => .ok (List.rel_append h h')

end

theorem filter_beside (cs : List Condition) : Beside (Option.Rel (List.Forall₂ Piece.Turns))
    (filter ⟨.clickHouse, entity, now⟩ cs) (filter ⟨.proton, entity, now⟩ cs) := by
  cases cs with
  | nil => exact .ok .none
  | cons c cs => exact (chain_beside (c :: cs)).bind fun ps qs h => .ok (.some h)

theorem order_beside (items : List OrderItem) :
    Beside (List.Forall₂ fun s t : String => Turns s.toList t.toList)
      (order ⟨.clickHouse, entity, now⟩ items) (order ⟨.proton, entity, now⟩ items) := by
  induction items with
  | nil => exact .ok .nil
  | cons item items ih =>
    rw [order, order]
    refine (renderField_beside item.field).bind fun f g hfield => ?_
    refine ih.bind fun keys keys' hkeys => .ok (.cons ?_ hkeys)
    simp only [String.toList_append, List.append_assoc]
    refine hfield.expression.append (.of_steady ?_)
    cases item.direction <;> decide

end Compiler

/-- Past the source, the statements of the two engines differ in the date function alone. -/
theorem Clauses.sql_turns (kind : QueryKind) (source source' : String)
    {filter filter' : Option (List Piece)} {keys keys' : List String} (limit : Option Nat)
    (offset : Nat) (hfilter : Option.Rel (List.Forall₂ Piece.Turns) filter filter')
    (hkeys : List.Forall₂ (fun s t : String => Turns s.toList t.toList) keys keys') :
    ∃ tail tail', List.Forall₂ Piece.Turns tail tail' ∧
      Clauses.sql ⟨kind, source, filter, keys, limit, offset⟩ "COUNT(*)" =
        .text ("SELECT " ++ projection kind ++ " FROM " ++ source) :: tail ∧
      Clauses.sql ⟨kind, source', filter', keys', limit, offset⟩ "COUNT(*)" =
        .text ("SELECT " ++ projection kind ++ " FROM " ++ source') :: tail' := by
  refine ⟨_, _, ?_, rfl, rfl⟩
  refine List.rel_append (List.rel_append (List.rel_append ?_ ?_) ?_) ?_
  · cases hfilter with
    | none => exact .nil
    | some h => exact .cons (.text (.of_steady (by decide))) h
  · cases hkeys with
    | nil => exact .nil
    | cons hkey hkeys =>
      refine .cons (.text ?_) .nil
      simp only [String.toList_append]
      exact (Turns.of_steady (by decide)).append (.join (.cons hkey hkeys))
  · cases limit with
    | none => exact .nil
    | some limit =>
      refine .cons (.text ?_) .nil
      simp only [String.toList_append]
      exact (Turns.of_steady (by decide)).append (.digits limit)
  · simp only
    split
    · refine .cons (.text ?_) .nil
      simp only [String.toList_append]
      exact (Turns.of_steady (by decide)).append (.digits offset)
    · exact .nil

namespace Query

/-- The pieces of one query for the two engines. -/
def Streams (q : Query) (ps qs : List Piece) : Prop :=
  ∃ source source' tail tail', Dialect.clickHouse.source q.entity = some source ∧
    Dialect.proton.source q.entity = some source' ∧ List.Forall₂ Piece.Turns tail tail' ∧
    ps = .text ("SELECT " ++ Clauses.projection q.kind ++ " FROM " ++ source) :: tail ∧
    qs = .text ("SELECT " ++ Clauses.projection q.kind ++ " FROM " ++ source') :: tail'

theorem pieces_beside (q : Query) (now : Time.Timestamp) :
    Beside q.Streams (q.pieces .clickHouse now) (q.pieces .proton now) := by
  have hoffset : Beside (· = ·)
      ((Paging.offsetOf q.appliedPage q.appliedLimit).mapError CompileError.invalidCursor)
      ((Paging.offsetOf q.appliedPage q.appliedLimit).mapError CompileError.invalidCursor) := by
    refine .same (fun _ _ => rfl) fun e he => ?_
    obtain ⟨fault, -, rfl⟩ := mapError_eq_error_iff.1 he
    rfl
  unfold pieces
  refine Beside.bind (R := fun c c' => q.Streams (c.sql "COUNT(*)") (c'.sql "COUNT(*)")) ?_
    fun _ _ h => .ok h
  unfold clauses
  refine Beside.bind (R := fun s s' => Dialect.clickHouse.source q.entity = some s ∧
    Dialect.proton.source q.entity = some s') (.ok ⟨rfl, rfl⟩) fun source source' hsource => ?_
  refine hoffset.bind fun offset offset' heq => ?_
  subst heq
  refine (Compiler.filter_beside q.conditions).bind fun filter filter' hfilter => ?_
  refine (Compiler.order_beside q.appliedOrder).bind fun keys keys' hkeys => .ok ?_
  obtain ⟨tail, tail', htails, hps, hqs⟩ :=
    Clauses.sql_turns q.kind source source' q.appliedLimit offset hfilter hkeys
  exact ⟨source, source', tail, tail', hsource.1, hsource.2, htails, hps, hqs⟩

/-- The source is the first thing after the first `FROM`. -/
theorem replaceFirst_source (kind : QueryKind) (source source' : String) (rest : List Char) :
    Text.replaceOnce (" FROM " ++ source).toList (" FROM " ++ source').toList
      (("SELECT " ++ Clauses.projection kind ++ " FROM " ++ source).toList ++ rest) =
      ("SELECT " ++ Clauses.projection kind ++ " FROM " ++ source').toList ++ rest := by
  cases kind <;> simp [Clauses.projection, Text.replaceOnce]

theorem Streams.statement {q : Query} {ps qs : List Piece} (h : q.Streams ps qs) :
    ∃ source source', Dialect.clickHouse.source q.entity = some source ∧
      Dialect.proton.source q.entity = some source' ∧
      Piece.numbered .proton 1 qs = Text.replaceAll "toDate(" "to_date("
        (Text.replaceFirst (" FROM " ++ source) (" FROM " ++ source')
          (Piece.numbered .clickHouse 1 ps)) := by
  obtain ⟨source, source', tail, tail', hsource, hsource', htails, rfl, rfl⟩ := h
  refine ⟨source, source', hsource, hsource', ?_⟩
  have hstart : Turns ("SELECT " ++ Clauses.projection q.kind ++ " FROM ").toList
      ("SELECT " ++ Clauses.projection q.kind ++ " FROM ").toList :=
    Turns.of_steady (by cases q.kind <;> decide +kernel)
  have hstream : Turns source'.toList source'.toList := by
    have hcheck : Entity.all.all fun e => (Dialect.proton.source e).all fun s =>
        Turns.steady s.toList := by decide +kernel
    have hsteady := List.all_eq_true.1 hcheck _ (Entity.mem_all q.entity)
    rw [hsource', Option.all_some] at hsteady
    exact Turns.of_steady hsteady
  have hread : ∀ d ps, (Piece.numbered d 1 ps).toList = Piece.chars d 1 ps := fun _ _ => rfl
  rw [← String.toList_inj]
  simp only [Text.replaceAll, Text.replaceFirst, String.toList_ofList, hread, Piece.chars_text]
  rw [replaceFirst_source]
  have hall := ((hstart.append hstream).append (Piece.Turns.chars htails 1)) [] (by simp [Fresh])
  simpa [restreamed, Text.replaceFrom] using hall.2.symm

theorem Streams.params {q : Query} {ps qs : List Piece} (h : q.Streams ps qs) :
    Piece.params qs = Piece.params ps := by
  obtain ⟨_, _, tail, tail', -, -, htails, rfl, rfl⟩ := h
  rw [Piece.params, Piece.params]
  exact Piece.Turns.params htails

/-- What the streaming engine gets is what the columnar engine gets, with the source after `FROM`
and the calls of the date function replaced. Where the one fails, the other fails with the same
error, under its own name. -/
theorem compile_proton_eq (q : Query) (now : Time.Timestamp) :
    ∃ source source', Dialect.clickHouse.source q.entity = some source ∧
      Dialect.proton.source q.entity = some source' ∧
      q.compile .proton .parameterized now =
        ((q.compile .clickHouse .parameterized now).map fun a =>
          ⟨Text.replaceAll "toDate(" "to_date("
            (Text.replaceFirst (" FROM " ++ source) (" FROM " ++ source') a.statement),
            a.params, a.viz, a.pages⟩).mapError (CompileError.on .proton) := by
  have hpieces := q.pieces_beside now
  unfold compile
  generalize q.pieces .clickHouse now = x at hpieces ⊢
  generalize q.pieces .proton now = y at hpieces ⊢
  cases hpieces with
  | error e => exact ⟨_, _, rfl, rfl, rfl⟩
  | @ok ps qs h =>
    obtain ⟨source, source', hsource, hsource', hstatement⟩ := h.statement
    refine ⟨source, source', hsource, hsource', congrArg Except.ok ?_⟩
    simp only [Piece.write, Piece.bound, h.params]
    exact congrArg (Artifact.mk · _ _ _) hstatement

end Query

end NetQuery
