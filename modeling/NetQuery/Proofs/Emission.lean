import NetQuery.Proofs.Limits

/-!
# Numbering while writing

A statement can be written in one go, as text, with the list of its values growing beside it: a
value that is met goes to the end of the list, and its placeholder gets the length of the list as
its number. Pieces are put together without numbers, and are numbered once the whole statement is
there. The two agree, since operands stand in a statement in the order in which they are met. So the
number of a placeholder is the place of its value, however deep the value stands in a group.
-/

namespace NetQuery

/-- A step of writing, with the values so far. -/
abbrev Emitter (α : Type) : Type := StateT (List Param) (Except CompileError) α

namespace Emitter

open Compiler (Context RenderedField)

/-! ## Writing in one go -/

/-- What is written for a value. With placeholders, the value is put behind the others first, and is
numbered by how many there are then. -/
def emit (d : Dialect) (mode : Mode) (param : Param) : Emitter String := do
  match mode with
  | .parameterized =>
    modify (· ++ [param])
    return d.placeholder (← get).length
  | .literal => return d.literal param

/-- A scalar operand. -/
def scalar (ctx : Context) (mode : Mode) (field : RenderedField) (forced : Option ParamType)
    (value : Value) : Emitter String :=
  match value with
  | .keyword keyword =>
    match field.datePart, ctx.dialect.dateKeyword keyword with
    | false, some native => return native
    | _, _ => emit ctx.dialect mode (.text (keyword.dateText ctx.now))
  | value => do
    let type ← match forced with
      | some type => pure type
      | none => (ParamType.infer value field.type).mapError CompileError.bind
    let param ← (value.bind type).mapError CompileError.bind
    emit ctx.dialect mode param

/-- The text of a template around the expression of a field and the texts of its operands. -/
def fill (template : Template) (field : RenderedField) (operand upper : String) : String :=
  Text.concat (template.map fun
    | .text s => s
    | .field => field.expression
    | .operand => operand
    | .upper => upper)

/-- A comparison whose field has been rendered and whose literal has been checked. -/
def operation (ctx : Context) (mode : Mode) (c : Comparison) (field : RenderedField) :
    Emitter String :=
  let d := ctx.dialect
  match c.operator, c.value with
  | .isNull, _ => return fill d.isNull field "" ""
  | .isNotNull, _ => return fill d.isNotNull field "" ""
  | .like, value => do
    let pattern ← scalar ctx mode field none value
    return fill d.like field pattern ""
  | .contains, value => do
    let part ← scalar ctx mode field none value
    return fill d.contains field part ""
  | .isIn, .list items => do
    let param ← ((Value.list items).bindList field.type).mapError CompileError.bind
    let list ← emit d mode param
    return fill d.isIn field list ""
  | .between, .list [low, high] => do
    let forced := Compiler.rangeType low high
    let lower ← scalar ctx mode field forced low
    let upper ← scalar ctx mode field forced high
    return fill d.between field lower upper
  | .isIn, _ | .between, _ => throw (.invalidLiteral c.field c.operator .notAList)
  | _, value => do
    let symbol ← Compiler.symbol d c
    let operand ← scalar ctx mode field none value
    return field.expression ++ (" " ++ symbol ++ " ") ++ operand

/-- A comparison. -/
def comparison (ctx : Context) (mode : Mode) (c : Comparison) : Emitter String := do
  let field ← Compiler.renderField ctx c.field
  (Compiler.checkLiteral ctx.dialect c.operator c.value field.type).mapError
    (CompileError.invalidLiteral c.field c.operator)
  operation ctx mode c field

/-- The text that joins a condition to the ones before it. -/
def link (d : Dialect) : Link → String
  | .first => ""
  | .and => " " ++ d.andWord ++ " "
  | .or => " " ++ d.orWord ++ " "

mutual

/-- A condition, with the word that joins it to the ones before it. -/
def condition (ctx : Context) (mode : Mode) : Condition → Emitter String
  | .compare l c => do
    let text ← comparison ctx mode c
    return link ctx.dialect l ++ text
  | .group l members => do
    let text ← chain ctx mode members
    return link ctx.dialect l ++ ("(" ++ text ++ ")")

/-- A chain of conditions. -/
def chain (ctx : Context) (mode : Mode) : List Condition → Emitter String
  | [] => return ""
  | c :: rest => do
    let text ← condition ctx mode c
    let more ← chain ctx mode rest
    return text ++ more

end

/-- The filter of a query, if it has conditions. -/
def filter (ctx : Context) (mode : Mode) : List Condition → Emitter (Option String)
  | [] => return none
  | conditions => some <$> chain ctx mode conditions

end Emitter

/-- A query compiled in one go. The values are those that are left when its filter is written. -/
def Query.emitted (q : Query) (backend : Backend) (mode : Mode) (now : Time.Timestamp) :
    Compiled Artifact := do
  let source ← match backend.dialect.source q.entity with
    | some source => .ok source
    | none => .error (.unsupportedEntity q.entity backend.dialect.backend)
  let offset ← (Paging.offsetOf q.appliedPage q.appliedLimit).mapError .invalidCursor
  let (filter, params) ← (Emitter.filter (q.context backend now) mode q.conditions).run []
  let order ← Compiler.order (q.context backend now) q.appliedOrder
  let paging := backend.dialect.shape.paging q.appliedLimit offset
  .ok ⟨backend.dialect.shape.layout q.kind source filter order paging, params, q.viz,
    Paging.pending q.appliedPage q.appliedLimit⟩

/-! ## Pieces from a number on -/

namespace Piece

variable {d : Dialect} {mode : Mode}

/-- The text of pieces, of which the first placeholder has the given number. -/
def writeFrom (d : Dialect) (mode : Mode) (number : Nat) (ps : List Piece) : String :=
  match mode with
  | .parameterized => numbered d number ps
  | .literal => embedded d ps

theorem write_eq_writeFrom (d : Dialect) (mode : Mode) (ps : List Piece) :
    write d mode ps = writeFrom d mode 1 ps := by
  cases mode <;> rfl

theorem bound_append (ps qs : List Piece) :
    bound mode (ps ++ qs) = bound mode ps ++ bound mode qs := by
  cases mode with
  | parameterized => exact params_append ps qs
  | literal => rfl

/-- What follows is numbered on from the values that are bound. -/
theorem writeFrom_append (number : Nat) (ps qs : List Piece) : writeFrom d mode number (ps ++ qs) =
    writeFrom d mode number ps ++ writeFrom d mode (number + (bound mode ps).length) qs := by
  cases mode with
  | parameterized => exact numbered_append d number ps qs
  | literal => exact embedded_append d ps qs

@[simp] theorem writeFrom_nil (number : Nat) : writeFrom d mode number [] = "" := by
  cases mode <;> rfl

@[simp] theorem writeFrom_text (number : Nat) (s : String) (ps : List Piece) :
    writeFrom d mode number (.text s :: ps) = s ++ writeFrom d mode number ps := by
  cases mode <;> rfl

@[simp] theorem bound_nil : bound mode [] = [] := by
  cases mode <;> rfl

@[simp] theorem bound_text (s : String) (ps : List Piece) :
    bound mode (.text s :: ps) = bound mode ps := by
  cases mode <;> rfl

end Piece

namespace Emitter

open Compiler (Context RenderedField)
open Piece (writeFrom bound)

variable {d : Dialect} {mode : Mode} {x y : Emitter String} {ps qs : Compiled (List Piece)}

/-! ## Writing pieces -/

/-- Running `x` writes the pieces `ps`: it gives their text, numbered on from the values so far, and
puts their values behind these. It fails as they do. -/
def Emits (d : Dialect) (mode : Mode) (x : Emitter String) (ps : Compiled (List Piece)) : Prop :=
  ∀ values, x.run values =
    ps.map fun ps => (writeFrom d mode (values.length + 1) ps, values ++ bound mode ps)

/-- Text is written without a look at the values. -/
theorem emits_pure {s : String} {ps : List Piece} (hs : ∀ number, writeFrom d mode number ps = s)
    (hbound : bound mode ps = []) : Emits d mode (pure s) (.ok ps) := by
  intro values
  simp only [Except.map, hs, hbound, List.append_nil]
  rfl

/-- A value is numbered by its place. -/
theorem emits_emit (param : Param) : Emits d mode (emit d mode param) (.ok [.param param]) := by
  intro values
  cases mode with
  | parameterized =>
    have hwritten : writeFrom d .parameterized (values.length + 1) [.param param] =
        d.placeholder (values ++ [param]).length := by
      simp [writeFrom, Piece.numbered]
    simp only [Except.map, hwritten]
    rfl
  | literal =>
    have hwritten : writeFrom d .literal (values.length + 1) [.param param] = d.literal param := by
      simp [writeFrom, Piece.embedded]
    simp only [Except.map, hwritten, bound, List.append_nil]
    rfl

theorem emits_throw (e : CompileError) : Emits d mode (throw e) (.error e) :=
  fun _ => rfl

/-- A step that writes nothing may come before. -/
theorem emits_lift_bind {α : Type} (e : Compiled α) {k : α → Emitter String}
    {k' : α → Compiled (List Piece)} (h : ∀ a, Emits d mode (k a) (k' a)) :
    Emits d mode (do k (← e)) (e >>= k') := by
  intro values
  cases e with
  | error e => rfl
  | ok a => exact h a values

/-- What is written later knows what was written before it, and finds its values. -/
theorem Emits.bind (hx : Emits d mode x ps) {k : String → Emitter String}
    {k' : List Piece → Compiled (List Piece)}
    (h : ∀ values ps, (k (writeFrom d mode (values.length + 1) ps)).run (values ++ bound mode ps) =
      (k' ps).map fun qs => (writeFrom d mode (values.length + 1) qs, values ++ bound mode qs)) :
    Emits d mode (x >>= k) (ps >>= k') := by
  intro values
  rw [StateT.run_bind, hx values]
  cases ps with
  | error e => rfl
  | ok ps => exact h values ps

/-- Text around what is written. -/
theorem Emits.map (hx : Emits d mode x ps) {f : String → String} {F : List Piece → List Piece}
    (htext : ∀ number ps, writeFrom d mode number (F ps) = f (writeFrom d mode number ps))
    (hbound : ∀ ps, bound mode (F ps) = bound mode ps) :
    Emits d mode (do return f (← x)) (ps >>= fun ps => .ok (F ps)) := by
  refine hx.bind fun values ps => ?_
  simp only [Except.map, htext, hbound]
  rfl

/-- Text around two parts. The second is numbered on from the first. -/
theorem Emits.map₂ (hx : Emits d mode x ps) (hy : Emits d mode y qs)
    {f : String → String → String} {F : List Piece → List Piece → List Piece}
    (htext : ∀ number ps qs, writeFrom d mode number (F ps qs) =
      f (writeFrom d mode number ps) (writeFrom d mode (number + (bound mode ps).length) qs))
    (hbound : ∀ ps qs, bound mode (F ps qs) = bound mode ps ++ bound mode qs) :
    Emits d mode (do return f (← x) (← y)) (do .ok (F (← ps) (← qs))) := by
  refine hx.bind fun values ps => ?_
  rw [StateT.run_bind, hy]
  cases qs with
  | error e => rfl
  | ok qs =>
    have hlater : (values ++ bound mode ps).length + 1 =
        values.length + 1 + (bound mode ps).length := by
      rw [List.length_append, Nat.add_right_comm]
    change Except.ok (f _ (writeFrom d mode ((values ++ bound mode ps).length + 1) qs),
      values ++ bound mode ps ++ bound mode qs) =
        Except.ok (writeFrom d mode (values.length + 1) (F ps qs), values ++ bound mode (F ps qs))
    rw [htext, hbound, hlater, List.append_assoc]

/-! ## Templates -/

section Templates

variable {field : RenderedField} {backend : Backend}

/-- Slots are written one after the other: fixed text as it is, and each operand with its numbers on
from those before it. -/
theorem writeFrom_flatMap {g : Slot → List Piece} {texts : Slot → String} (number : Nat)
    (hfixed : ∀ slot, slot.isOperand = false → ∃ s, g slot = [.text s] ∧ texts slot = s)
    {t : Template} (h : ∀ before slot after, t.filter Slot.isOperand = before ++ slot :: after →
      texts slot = writeFrom d mode (number + (bound mode (before.flatMap g)).length) (g slot)) :
    writeFrom d mode number (t.flatMap g) = Text.concat (t.map texts) := by
  induction t generalizing number with
  | nil => exact Piece.writeFrom_nil number
  | cons slot t ih =>
    rw [List.flatMap_cons, Piece.writeFrom_append, List.map_cons, Text.concat]
    cases hslot : slot.isOperand with
    | false =>
      obtain ⟨s, hg, rfl⟩ := hfixed slot hslot
      rw [List.filter_cons, if_neg (by simp [hslot])] at h
      rw [hg]
      simp [ih number h]
    | true =>
      rw [List.filter_cons, if_pos hslot] at h
      have hfirst := h [] slot _ rfl
      have hrest := ih (number + (bound mode (g slot)).length) fun before next after hnext => by
        have hlater := h (slot :: before) next after (by rw [hnext]; rfl)
        rw [hlater, List.flatMap_cons, Piece.bound_append, List.length_append, Nat.add_assoc]
      rw [hrest, hfirst]
      simp

/-- An operand is the first of its operator, or the upper bound after it. -/
theorem slots_cases {op : Operator} {before after : List Slot} {slot : Slot}
    (h : op.slots = before ++ slot :: after) :
    (before = [] ∧ slot = .operand) ∨ (before = [.operand] ∧ slot = .upper) := by
  rcases before with _ | ⟨first, _ | ⟨second, before⟩⟩
  · cases op <;> simp_all [Operator.slots]
  · cases op <;> simp_all [Operator.slots]
  · cases op <;> simp [Operator.slots] at h

/-- Both ways to fill a template say the same, and number its operands from left to right. -/
theorem writeFrom_fill (op : Operator) (number : Nat) (operand upper : List Piece) :
    writeFrom d mode number (Compiler.fill (backend.dialect.template op) field operand upper) =
      fill (backend.dialect.template op) field (writeFrom d mode number operand)
        (writeFrom d mode (number + (bound mode operand).length) upper) := by
  refine writeFrom_flatMap number (fun slot hslot => ?_) fun before slot after hslots => ?_
  · cases slot with
    | text s => exact ⟨s, rfl, rfl⟩
    | field => exact ⟨field.expression, rfl, rfl⟩
    | operand => cases hslot
    | upper => cases hslot
  · rw [filter_template] at hslots
    rcases slots_cases hslots with ⟨rfl, rfl⟩ | ⟨rfl, rfl⟩
    · simp
    · simp

theorem bound_fill (op : Operator) (operand upper : List Piece) :
    bound mode (Compiler.fill (backend.dialect.template op) field operand upper) =
      op.slots.flatMap fun
        | .operand => bound mode operand
        | .upper => bound mode upper
        | _ => [] := by
  cases mode with
  | parameterized =>
    rw [bound, Compiler.params_fill, filter_template]
    rfl
  | literal => cases op <;> rfl

theorem emits_fill (op : Operator) (hslots : op.slots = []) :
    Emits d mode (pure (fill (backend.dialect.template op) field "" ""))
      (.ok (Compiler.fill (backend.dialect.template op) field [] [])) := by
  refine emits_pure (fun number => ?_) ?_
  · rw [writeFrom_fill]
    simp
  · rw [bound_fill, hslots]
    rfl

/-- One operand in its place in a template. -/
theorem Emits.fill_operand (hx : Emits d mode x ps) (op : Operator)
    (hslots : op.slots = [.operand]) :
    Emits d mode (do return fill (backend.dialect.template op) field (← x) "")
      (do .ok (Compiler.fill (backend.dialect.template op) field (← ps) [])) := by
  refine hx.map (fun number ps => ?_) fun ps => ?_
  · rw [writeFrom_fill]
    simp
  · rw [bound_fill, hslots]
    simp

/-- The bounds of a range in their places in a template. -/
theorem Emits.fill_range (hx : Emits d mode x ps) (hy : Emits d mode y qs) :
    Emits d mode (do return fill (backend.dialect.template .between) field (← x) (← y))
      (do .ok (Compiler.fill (backend.dialect.template .between) field (← ps) (← qs))) := by
  refine hx.map₂ hy (writeFrom_fill .between) fun ps qs => ?_
  rw [bound_fill]
  simp [Operator.slots]

end Templates

/-! ## Comparisons -/

section Comparisons

variable {ctx : Context} {field : RenderedField} {backend : Backend}

theorem scalar_emits (forced : Option ParamType) (value : Value) :
    Emits ctx.dialect mode (scalar ctx mode field forced value)
      ((Compiler.scalar ctx field forced value).mapError CompileError.bind) := by
  have hbound : ∀ (value : Value) (type : Except BindError ParamType),
      Emits ctx.dialect mode
        (do
          let type ← type.mapError CompileError.bind
          let param ← (value.bind type).mapError CompileError.bind
          emit ctx.dialect mode param)
        ((do
          let type ← type
          let param ← value.bind type
          .ok [Piece.param param]).mapError CompileError.bind) := by
    intro value type
    simp only [mapError_bind]
    exact emits_lift_bind _ fun type => emits_lift_bind _ fun param => emits_emit param
  cases value with
  | keyword word =>
    simp only [scalar, Compiler.scalar]
    cases field.datePart with
    | true => exact emits_emit _
    | false =>
      cases ctx.dialect.dateKeyword word with
      | none => exact emits_emit _
      | some native => exact emits_pure (by simp) (by simp)
  | _ =>
    cases forced with
    | none => exact hbound _ _
    | some type => exact hbound _ (.ok type)

/-- An operation is written by its template, with its operands in order. -/
theorem operation_emits (hctx : ctx.dialect = backend.dialect) (c : Comparison) :
    Emits ctx.dialect mode (operation ctx mode c field) (Compiler.operation ctx c field) := by
  obtain ⟨dialect, entity, now⟩ := ctx
  obtain rfl : dialect = backend.dialect := hctx
  obtain ⟨f, op, v⟩ := c
  cases op with
  | isNull => exact emits_fill .isNull rfl
  | isNotNull => exact emits_fill .isNotNull rfl
  | like => exact (scalar_emits none v).fill_operand .like rfl
  | contains => exact (scalar_emits none v).fill_operand .contains rfl
  | compare comparator =>
    refine emits_lift_bind _ fun symbol => (scalar_emits none v).map (fun number ps => ?_)
      fun ps => ?_
    · simp [String.append_assoc]
    · simp
  | isIn =>
    cases v with
    | list items =>
      exact emits_lift_bind _ fun param => (emits_emit param).fill_operand .isIn rfl
    | _ => exact emits_throw _
  | between =>
    cases v with
    | list items =>
      rcases items with _ | ⟨low, _ | ⟨high, _ | ⟨_, _⟩⟩⟩
      · exact emits_throw _
      · exact emits_throw _
      · exact (scalar_emits _ low).fill_range (scalar_emits _ high)
      · exact emits_throw _
    | _ => exact emits_throw _

theorem comparison_emits (hctx : ctx.dialect = backend.dialect) (c : Comparison) :
    Emits ctx.dialect mode (comparison ctx mode c) (Compiler.comparison ctx c) :=
  emits_lift_bind _ fun _ => emits_lift_bind _ fun _ => operation_emits hctx c

end Comparisons

/-! ## Chains -/

section Chains

variable {ctx : Context} {backend : Backend}

theorem writeFrom_link (l : Link) (ps : List Piece) (number : Nat) :
    writeFrom d mode number (Compiler.linkPieces d l ++ ps) =
        link d l ++ writeFrom d mode number ps ∧
      bound mode (Compiler.linkPieces d l ++ ps) = bound mode ps := by
  cases l <;> simp [Compiler.linkPieces, link]

mutual

theorem condition_emits (hctx : ctx.dialect = backend.dialect) (c : Condition) :
    Emits ctx.dialect mode (condition ctx mode c) (Compiler.condition ctx c) := by
  cases c with
  | compare l c =>
    rw [condition, Compiler.condition]
    exact (comparison_emits hctx c).map (fun number ps => (writeFrom_link l ps number).1)
      fun ps => (writeFrom_link l ps 0).2
  | group l members =>
    rw [condition, Compiler.condition]
    refine (chain_emits hctx members).map (fun number ps => ?_) fun ps => ?_
    · rw [(writeFrom_link l _ number).1, Piece.writeFrom_text, Piece.writeFrom_append]
      simp [String.append_assoc]
    · rw [(writeFrom_link l _ 0).2, Piece.bound_text, Piece.bound_append]
      simp

/-- A chain is written from left to right, so its values are met in the order of its pieces. -/
theorem chain_emits (hctx : ctx.dialect = backend.dialect) (cs : List Condition) :
    Emits ctx.dialect mode (chain ctx mode cs) (Compiler.chain ctx cs) := by
  cases cs with
  | nil =>
    rw [chain, Compiler.chain]
    exact emits_pure (by simp) (by simp)
  | cons c cs =>
    rw [chain, Compiler.chain]
    exact (condition_emits hctx c).map₂ (chain_emits hctx cs) Piece.writeFrom_append
      Piece.bound_append

end

/-- A filter is written first, so the values start with it. -/
theorem run_filter (hctx : ctx.dialect = backend.dialect) (mode : Mode) (cs : List Condition) :
    (filter ctx mode cs).run [] = (Compiler.filter ctx cs).map fun ps =>
      (ps.map (Piece.write ctx.dialect mode), bound mode (ps.getD [])) := by
  cases cs with
  | nil => simp [filter, Compiler.filter, Except.map, pure, StateT.pure, StateT.run, Except.pure]
  | cons c cs =>
    simp only [filter, Compiler.filter, StateT.run_map, chain_emits hctx (c :: cs) []]
    cases Compiler.chain ctx (c :: cs) with
    | error e => rfl
    | ok ps =>
      have hwritten := Piece.write_eq_writeFrom ctx.dialect mode ps
      simp [Except.map, hwritten, Functor.map]

end Chains

end Emitter

theorem Clauses.bound_statement (c : Clauses) (mode : Mode) (shape : Shape) :
    Piece.bound mode (c.statement shape) = Piece.bound mode (c.filter.getD []) := by
  cases mode with
  | parameterized => exact c.params_statement shape
  | literal => rfl

/-- The statement that is written in one go is the statement of the pieces: with each value pushed
as it is met and numbered by its place, or written out where it is met. -/
theorem Query.compile_eq_emitted (q : Query) (backend : Backend) (mode : Mode)
    (now : Time.Timestamp) : q.compile backend mode now = q.emitted backend mode now := by
  have hfilter : (Emitter.filter ⟨backend.dialect, q.entity, now⟩ mode q.conditions).run [] = _ :=
    Emitter.run_filter rfl mode q.conditions
  -- Up to the filter both take the same steps, and after it no value is met.
  simp only [compile, pieces, clauses, emitted, context, hfilter]
  cases hsource : backend.dialect.source q.entity with
  | none => rfl
  | some source =>
    cases hoffset : Paging.offsetOf q.appliedPage q.appliedLimit with
    | error fault => rfl
    | ok offset =>
      cases Compiler.filter ⟨backend.dialect, q.entity, now⟩ q.conditions with
      | error e => rfl
      | ok ps =>
        cases Compiler.order ⟨backend.dialect, q.entity, now⟩ q.appliedOrder with
        | error e => rfl
        | ok order =>
          have hzero := Paging.offset_eq_zero hoffset
          refine congrArg Except.ok ?_
          rw [Clauses.write_statement hzero, Clauses.bound_statement]

end NetQuery
