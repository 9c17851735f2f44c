import Mathlib.Data.List.DropRight
import NetQuery.Proofs.Clock
import NetQuery.Proofs.Plans
import NetQuery.Service.Session

/-!
# Reading a table page by page

A reader asks for the first page of a table without a cursor and for each further page with the
cursor that came with the one before. An executor knows nothing of cursors: it finds in the text of
the statement how many rows it has to pass over. Every page that a reader asks for can be compiled,
the last one is found, and the pages put together are the table. What the reader does is a session
in which as many rows come back, turn by turn, as there are on the page.
-/

namespace NetQuery

/-! ## How many rows a statement passes over -/

/-- The number of rows that a statement passes over, as its text says. An SQL engine is told after
the limit, a document engine before it. -/
def Shape.passed (shape : Shape) (statement : String) : Nat :=
  match shape with
  | .sql _ =>
    let before := statement.toList.rdropWhile Number.isDigit
    if " OFFSET ".toList.isSuffixOf before then
      Number.value (statement.toList.rtakeWhile Number.isDigit)
    else 0
  | .document binder separator =>
    let body := statement.toList.rdrop (separator ++ "RETURN " ++ binder).length
    let before := body.rdropWhile Number.isDigit
    if ", ".toList.isSuffixOf before then
      Number.value ((before.rdrop 2).rtakeWhile Number.isDigit)
    else 0

namespace Piece

/-- What follows is numbered on from the values before it. -/
theorem numbered_append (d : Dialect) (number : Nat) (ps qs : List Piece) :
    numbered d number (ps ++ qs) =
      numbered d number ps ++ numbered d (number + (params ps).length) qs := by
  induction ps generalizing number with
  | nil => simp [numbered, params]
  | cons p ps ih =>
    cases p with
    | text s => simp [numbered, params, ih, String.append_assoc]
    | param p =>
      have hnumber : number + 1 + (params ps).length = number + ((params ps).length + 1) := by omega
      simp [numbered, params, ih, hnumber, String.append_assoc]

theorem embedded_append (d : Dialect) (ps qs : List Piece) :
    embedded d (ps ++ qs) = embedded d ps ++ embedded d qs := by
  induction ps with
  | nil => simp [embedded]
  | cons p ps ih => cases p <;> simp [embedded, ih, String.append_assoc]

theorem write_append_text (d : Dialect) (mode : Mode) (ps : List Piece) (s : String) :
    write d mode (ps ++ [.text s]) = write d mode ps ++ s := by
  cases mode with
  | parameterized => simp [write, numbered_append, numbered]
  | literal => simp [write, embedded_append, embedded]

end Piece

section Ends

variable {p : Char → Bool} {before run : List Char}

theorem rtakeWhile_append (hrun : ∀ c ∈ run, p c) (hbefore : ∀ c ∈ before.getLast?, p c = false) :
    (before ++ run).rtakeWhile p = run := by
  have hreverse : (run.reverse ++ before.reverse).takeWhile p = run.reverse :=
    Text.takeWhile_append_of_stop (by simpa using hrun) (by simpa using hbefore)
  rw [List.rtakeWhile, List.reverse_append, hreverse, List.reverse_reverse]

theorem rdropWhile_append (hrun : ∀ c ∈ run, p c) (hbefore : ∀ c ∈ before.getLast?, p c = false) :
    (before ++ run).rdropWhile p = before := by
  have hsplit := List.rdropWhile_append_rtakeWhile (p := p) (l := before ++ run)
  rw [rtakeWhile_append hrun hbefore] at hsplit
  exact List.append_cancel_right hsplit

end Ends

theorem isDigit_of_mem_toString {n : Nat} {c : Char} (h : c ∈ (toString n).toList) :
    Number.isDigit c := by
  rw [Nat.toString_eq_ofList_toDigits, String.toList_ofList] at h
  exact Nat.isDigit_of_mem_toDigits (by decide) (by decide) h

theorem value_toString (n : Nat) : Number.value (toString n).toList = n := by
  rw [Nat.toString_eq_ofList_toDigits, String.toList_ofList]
  exact Nat.ofDigitChars_ten_toDigits

/-- A number after a space is the longest run of digits there. -/
theorem isDigit_getLast?_append (front : List Char) {word : List Char}
    (hword : word.getLast? = some ' ') :
    ∀ c ∈ (front ++ word).getLast?, Number.isDigit c = false := by
  intro c hc
  rw [List.getLast?_append, hword, Option.some_or, Option.mem_some] at hc
  rw [← hc]
  rfl

namespace Shape

theorem passed_sql_limit (countProjection front : String) (limit : Nat) :
    (Shape.sql countProjection).passed (front ++ (" LIMIT " ++ toString limit)) = 0 := by
  have hchars : (front ++ (" LIMIT " ++ toString limit)).toList =
      front.toList ++ " LIMIT ".toList ++ (toString limit).toList := by
    simp
  have hbefore : (front.toList ++ " LIMIT ".toList ++ (toString limit).toList).rdropWhile
      Number.isDigit = front.toList ++ " LIMIT ".toList :=
    rdropWhile_append (fun c hc => isDigit_of_mem_toString hc) (isDigit_getLast?_append _ rfl)
  have hnot : ¬" OFFSET ".toList.isSuffixOf (front.toList ++ " LIMIT ".toList) := by
    intro hsuffix
    have hshorter := List.suffix_of_suffix_length_le (List.suffix_append _ " LIMIT ".toList)
      (List.isSuffixOf_iff_suffix.1 hsuffix) (by decide)
    exact absurd hshorter (by decide)
  simp only [passed, hchars, hbefore, if_neg hnot]

theorem passed_sql_offset (countProjection front : String) (offset : Nat) :
    (Shape.sql countProjection).passed (front ++ (" OFFSET " ++ toString offset)) = offset := by
  have hchars : (front ++ (" OFFSET " ++ toString offset)).toList =
      front.toList ++ " OFFSET ".toList ++ (toString offset).toList := by
    simp
  have hspace : ∀ c ∈ (front.toList ++ " OFFSET ".toList).getLast?, Number.isDigit c = false :=
    isDigit_getLast?_append _ rfl
  have hbefore : (front.toList ++ " OFFSET ".toList ++ (toString offset).toList).rdropWhile
      Number.isDigit = front.toList ++ " OFFSET ".toList :=
    rdropWhile_append (fun c hc => isDigit_of_mem_toString hc) hspace
  have hrun : (front.toList ++ " OFFSET ".toList ++ (toString offset).toList).rtakeWhile
      Number.isDigit = (toString offset).toList :=
    rtakeWhile_append (fun c hc => isDigit_of_mem_toString hc) hspace
  have hsuffix : " OFFSET ".toList.isSuffixOf (front.toList ++ " OFFSET ".toList) :=
    List.isSuffixOf_iff_suffix.2 (List.suffix_append _ _)
  simp only [passed, hchars, hbefore, hrun, if_pos hsuffix, value_toString]

/-- What a document engine looks at is what stands before the clause that returns. -/
theorem rdrop_return (front binder separator : String) :
    (front ++ (separator ++ "RETURN " ++ binder)).toList.rdrop
      (separator ++ "RETURN " ++ binder).length = front.toList := by
  rw [String.toList_append, ← String.length_toList, List.rdrop_append_length]

theorem passed_document_limit (binder separator front : String) (limit : Nat) :
    (Shape.document binder separator).passed
      (front ++ (separator ++ "LIMIT " ++ "" ++ toString limit) ++
        (separator ++ "RETURN " ++ binder)) = 0 := by
  have hchars : (front ++ (separator ++ "LIMIT " ++ "" ++ toString limit)).toList =
      front.toList ++ separator.toList ++ "LIMIT ".toList ++ (toString limit).toList := by
    simp
  generalize front.toList ++ separator.toList = head at hchars
  have hbefore : (head ++ "LIMIT ".toList ++ (toString limit).toList).rdropWhile Number.isDigit =
      head ++ "LIMIT ".toList :=
    rdropWhile_append (fun c hc => isDigit_of_mem_toString hc) (isDigit_getLast?_append _ rfl)
  have hnot : ¬", ".toList.isSuffixOf (head ++ "LIMIT ".toList) := by
    intro hsuffix
    have hshorter := List.suffix_of_suffix_length_le (List.isSuffixOf_iff_suffix.1 hsuffix)
      (List.suffix_append _ "LIMIT ".toList) (by decide)
    exact absurd hshorter (by decide)
  simp only [passed, rdrop_return, hchars, hbefore, if_neg hnot]

theorem passed_document_offset (binder separator front : String) (limit offset : Nat) :
    (Shape.document binder separator).passed
      (front ++ (separator ++ "LIMIT " ++ (toString offset ++ ", ") ++ toString limit) ++
        (separator ++ "RETURN " ++ binder)) = offset := by
  have hchars : (front ++ (separator ++ "LIMIT " ++ (toString offset ++ ", ") ++
      toString limit)).toList = front.toList ++ separator.toList ++ "LIMIT ".toList ++
        (toString offset).toList ++ ", ".toList ++ (toString limit).toList := by
    simp
  generalize front.toList ++ separator.toList = head at hchars
  have hbefore : (head ++ "LIMIT ".toList ++ (toString offset).toList ++ ", ".toList ++
      (toString limit).toList).rdropWhile Number.isDigit =
      head ++ "LIMIT ".toList ++ (toString offset).toList ++ ", ".toList :=
    rdropWhile_append (fun c hc => isDigit_of_mem_toString hc) (isDigit_getLast?_append _ rfl)
  have hcomma : (head ++ "LIMIT ".toList ++ (toString offset).toList ++ ", ".toList).rdrop 2 =
      head ++ "LIMIT ".toList ++ (toString offset).toList :=
    List.rdrop_append_length
  have hrun : (head ++ "LIMIT ".toList ++ (toString offset).toList).rtakeWhile Number.isDigit =
      (toString offset).toList :=
    rtakeWhile_append (fun c hc => isDigit_of_mem_toString hc) (isDigit_getLast?_append _ rfl)
  have hsuffix : ", ".toList.isSuffixOf
      (head ++ "LIMIT ".toList ++ (toString offset).toList ++ ", ".toList) :=
    List.isSuffixOf_iff_suffix.2 (List.suffix_append _ _)
  simp only [passed, rdrop_return, hchars, hbefore, hcomma, hrun, if_pos hsuffix, value_toString]

end Shape

/-- The text of a statement says how many rows it passes over. -/
theorem Clauses.passed_statement {c : Clauses} {limit : Nat} (hkind : c.kind = .records)
    (hlimit : c.limit = some limit) (d : Dialect) (mode : Mode) (shape : Shape) :
    shape.passed (Piece.write d mode (c.statement shape)) = c.offset := by
  obtain ⟨kind, source, filter, order, _, offset⟩ := c
  subst hkind hlimit
  -- The last pieces are split off; the text before them does not matter.
  by_cases hoffset : 0 < offset
  · cases shape with
    | sql countProjection =>
      simp only [Clauses.statement, Clauses.sql, if_pos hoffset]
      rw [← List.cons_append, Piece.write_append_text]
      exact Shape.passed_sql_offset _ _ offset
    | document binder separator =>
      simp only [Clauses.statement, Clauses.document, if_pos hoffset]
      rw [← List.cons_append, Piece.write_append_text, ← List.cons_append, Piece.write_append_text]
      exact Shape.passed_document_offset _ _ _ limit offset
  · obtain rfl : offset = 0 := Nat.eq_zero_of_not_pos hoffset
    cases shape with
    | sql countProjection =>
      simp only [Clauses.statement, Clauses.sql, if_neg hoffset, List.append_nil]
      rw [← List.cons_append, Piece.write_append_text]
      exact Shape.passed_sql_limit _ _ limit
    | document binder separator =>
      simp only [Clauses.statement, Clauses.document, if_neg hoffset]
      rw [← List.cons_append, Piece.write_append_text, ← List.cons_append, Piece.write_append_text]
      exact Shape.passed_document_limit _ _ _ limit

/-! ## Other pages -/

namespace Query

/-- A query that compiles compiles at any other time and for any page that can be found. -/
theorem pieces_at_page {q : Query} {backend : Backend} {now : Time.Timestamp} {ps : List Piece}
    (h : q.pieces backend now = .ok ps) (hq : ∀ c ∈ comparisonsOf q.conditions, c.Formed)
    (hkind : q.kind = .records) {page : Option Page}
    {offset : Nat} (hoffset : Paging.offsetOf page q.limit = .ok offset) (later : Time.Timestamp) :
    ∃ source filter order, Query.pieces { q with page := page } backend later =
      .ok (Clauses.statement ⟨.records, source, filter, order, q.limit, offset⟩
        backend.dialect.shape) := by
  obtain ⟨source, _, filter, order, hsource, -, hfilter, horder, -⟩ := pieces_eq_ok_iff.1 h
  obtain ⟨filter', hfilter'⟩ := Compiler.filter_transfer
    (fun c hc ps hps => Compiler.comparison_anytime rfl (hq c hc).operand hps later) hfilter
  have hlimit : Query.appliedLimit { q with page := page } = q.limit := by
    simp only [appliedLimit, hkind]
  have hpage : Query.appliedPage { q with page := page } = page := by
    simp only [appliedPage, hkind]
  refine ⟨source, filter', order, pieces_eq_ok_iff.2
    ⟨source, offset, filter', order, hsource, ?_, hfilter', ?_, ?_⟩⟩
  · rw [hpage, hlimit]
    exact hoffset
  · exact (Compiler.order_anytime _ later).trans horder
  · rw [hlimit]
    simp only [hkind]

end Query

/-! ## One page -/

theorem Request.compile_eq_ok_iff {r : Request} {settings : Settings} {now : Time.Timestamp}
    {a : Artifact} :
    r.compile settings now = .ok a ↔ ∃ q mode limit, Query.parse r.query = .ok q ∧
      r.modeUnder settings = .ok mode ∧ r.limitOver q = .ok limit ∧
      Query.compile { q with limit := clamp settings.maxLimit limit, page := r.page?.or q.page }
        (r.backend.getD settings.backend) mode now = .ok a := by
  simp [Request.compile, Request.queryUnder, bind_eq_ok_iff, mapError_eq_ok_iff]

/-- A reader of a table. -/
structure Reader where
  /-- What is asked for; the cursor changes from page to page. -/
  request : Request
  /-- The settings of the service. -/
  settings : Settings
  /-- The time of each turn. -/
  clock : Nat → Time.Timestamp
  /-- The number of rows in the table. -/
  count : Nat

namespace Reader

/-- The request for the page of a cursor. -/
def ask (r : Reader) (cursor : Option String) : Request :=
  { r.request with cursor := cursor, direction := .next }

/-- The shape of the statements that the reader gets. -/
def shape (r : Reader) : Shape := (r.request.backend.getD r.settings.backend).dialect.shape

/-- The rows that an executor gives, by their indices: from the first that the statement does not
pass over, as many as there are under the limit. -/
def rows (r : Reader) (a : Artifact) : List Nat :=
  let start := r.shape.passed a.statement
  List.range' start (min (start + a.pages.limit.getD r.count) r.count - start)

/-- One turn: the rows of the page, and the cursor of the next page, if there is one. -/
def turn (r : Reader) (i : Nat) (cursor : Option String) :
    Except Failure (List Nat × Option String) := do
  let artifact ← (r.ask cursor).compile r.settings (r.clock i)
  let rows := r.rows artifact
  let plan ← (Paging.plan (r.ask cursor).page? artifact.pages.limit rows.length).mapError
    fun fault => .invalidCursor fault.message
  .ok (rows, plan.nextCursor)

/-- From turn `i` on, with the given cursor at hand, the reader sees these pages, and then there is
no further cursor. -/
inductive Sees (r : Reader) : (i : Nat) → (cursor : Option String) → List (List Nat) → Prop where
  | last {i : Nat} {cursor : Option String} {rows : List Nat}
      (h : r.turn i cursor = .ok (rows, none)) : Sees r i cursor [rows]
  | more {i : Nat} {cursor : Option String} {next : String} {rows : List Nat}
      {pages : List (List Nat)} (h : r.turn i cursor = .ok (rows, some next))
      (hnext : Sees r (i + 1) (some next) pages) : Sees r i cursor (rows :: pages)

/-- The cursor stands for the given offset. -/
def Points (cursor : Option String) (offset : Nat) : Prop :=
  (cursor = none ∧ offset = 0) ∨ cursor = some (Cursor.encode offset)

variable {r : Reader}

/-- A cursor of an offset in range is followed to that offset. -/
theorem Points.offsetOf {cursor : Option String} {offset : Nat} (h : Points cursor offset)
    (hoffset : offset ≤ Cursor.maxOffset) (limit : Nat) :
    Paging.offsetOf (r.ask cursor).page? (some limit) = .ok offset := by
  rcases h with ⟨rfl, rfl⟩ | rfl
  · rfl
  · have hpage : (r.ask (some (Cursor.encode offset))).page? =
        some ⟨Cursor.encode offset, .next, r.request.mode⟩ := by
      simp only [Request.page?, ask, Cursor.trimChars_encode]
      exact if_neg (by simpa using Cursor.encode_ne_nil offset)
    rw [hpage, Paging.offsetOf, Cursor.decode_encode hoffset]

/-- If the first page can be compiled, then so can every page that can be found, and its statement
passes over the rows before it. -/
theorem compile_at_page {q : Query} (hq : Query.parse r.request.query = .ok q)
    (hkind : q.kind = .records) {now : Time.Timestamp} {a : Artifact}
    (ha : (r.ask none).compile r.settings now = .ok a) {limit : Nat}
    (hlimit : a.pages.limit = some limit) {cursor : Option String} {offset : Nat}
    (hoffset : Paging.offsetOf (r.ask cursor).page? (some limit) = .ok offset)
    (later : Time.Timestamp) :
    ∃ b, (r.ask cursor).compile r.settings later = .ok b ∧ b.pages.limit = some limit ∧
      r.shape.passed b.statement = offset := by
  obtain ⟨q', mode, asked, hq', hmode, hasked, hcompile⟩ := Request.compile_eq_ok_iff.1 ha
  obtain rfl : q = q' := Except.ok.inj (hq.symm.trans hq')
  obtain ⟨ps, hps, rfl⟩ := Query.compile_eq_ok_iff.1 hcompile
  have hclamped : Request.clamp r.settings.maxLimit asked = some limit := by
    simpa [Paging.pending, Query.appliedLimit, hkind] using hlimit
  have hformed := Query.parse_formed hq
  have hfound : Paging.offsetOf ((r.ask cursor).page?.or q.page)
      (Request.clamp r.settings.maxLimit asked) = .ok offset := by
    rw [hformed.page, Option.or_none, hclamped]
    exact hoffset
  obtain ⟨source, filter, order, hpieces⟩ :=
    Query.pieces_at_page hps hformed.comparisons hkind hfound later
  refine ⟨_, Request.compile_eq_ok_iff.2 ⟨q, mode, asked, hq, hmode, hasked,
    Query.compile_eq_ok_iff.2 ⟨_, hpieces, rfl⟩⟩, ?_, ?_⟩
  · simpa [Paging.pending, Query.appliedLimit, hkind] using hclamped
  · exact Clauses.passed_statement rfl hclamped _ _ _

/-! ## All pages -/

section Run

variable {q : Query} (hq : Query.parse r.request.query = .ok q) (hkind : q.kind = .records)
  {now : Time.Timestamp} {a : Artifact} (ha : (r.ask none).compile r.settings now = .ok a)
  {limit : Nat} (hlimit : a.pages.limit = some limit) (hcount : r.count ≤ Cursor.maxOffset)

include hq hkind ha hlimit hcount

/-- A turn gives as many rows as the limit allows, and a new cursor if there were that many. -/
theorem turn_at {cursor : Option String} {offset : Nat} (hcursor : Points cursor offset)
    (hoffset : offset ≤ r.count) (hpos : 1 ≤ limit) (i : Nat) :
    r.turn i cursor = .ok (List.range' offset (min limit (r.count - offset)),
      if limit ≤ r.count - offset then some (Cursor.encode (offset + limit)) else none) := by
  have hfound := hcursor.offsetOf (r := r) (Nat.le_trans hoffset hcount) limit
  obtain ⟨b, hb, hblimit, hpassed⟩ := compile_at_page hq hkind ha hlimit hfound (r.clock i)
  have hrows : r.rows b = List.range' offset (min limit (r.count - offset)) := by
    have hsize : min (offset + limit) r.count - offset = min limit (r.count - offset) := by omega
    simp only [rows, hpassed, hblimit, Option.getD_some, hsize]
  have hplan : Paging.plan (r.ask cursor).page? b.pages.limit (r.rows b).length =
      .ok ⟨Paging.nextCursor offset (some limit) (min limit (r.count - offset)),
        Paging.prevCursor (r.ask cursor).page?, some limit⟩ := by
    rw [hblimit, hrows, List.length_range', Paging.plan, hfound]
  have hnext : Paging.nextCursor offset (some limit) (min limit (r.count - offset)) =
      if limit ≤ r.count - offset then some (Cursor.encode (offset + limit)) else none := by
    unfold Paging.nextCursor
    by_cases hfull : limit ≤ r.count - offset
    · -- A full page ends inside the table, so the sum does not pass the greatest offset.
      have hsum : min (offset + limit) Cursor.maxOffset = offset + limit := by omega
      simp only [hsum]
      rw [if_pos hfull, if_pos (by simp; omega)]
    · simp only
      rw [if_neg hfull, if_neg (by simp; omega)]
  refine bind_eq_ok_iff.2 ⟨b, hb, bind_eq_ok_iff.2 ⟨_, mapError_eq_ok_iff.2 hplan, ?_⟩⟩
  rw [hrows, hnext]

/-- From a cursor on, the reader sees the rest of the table. -/
theorem sees_from {cursor : Option String} {offset : Nat} (hcursor : Points cursor offset)
    (hoffset : offset ≤ r.count) (hpos : 1 ≤ limit) (i : Nat) :
    ∃ pages, r.Sees i cursor pages ∧ pages.length = (r.count - offset) / limit + 1 ∧
      pages.flatten = List.range' offset (r.count - offset) := by
  -- The rows that are left become fewer with every page.
  induction hleft : r.count - offset using Nat.strong_induction_on generalizing cursor offset i with
  | _ left ih =>
    have hturn := turn_at hq hkind ha hlimit hcount hcursor hoffset hpos i
    rw [hleft] at hturn
    by_cases hfull : limit ≤ left
    · rw [if_pos hfull, Nat.min_eq_left hfull] at hturn
      obtain ⟨pages, hsees, hlength, hflatten⟩ := ih (left - limit) (by omega)
        (Or.inr rfl) (by omega : offset + limit ≤ r.count) (i + 1) (by omega)
      refine ⟨_ :: pages, .more hturn hsees, ?_, ?_⟩
      · rw [List.length_cons, hlength, Nat.div_eq_sub_div hpos hfull]
      · rw [List.flatten_cons, hflatten, List.range'_append_1, Nat.add_sub_cancel' hfull]
    · rw [if_neg hfull, Nat.min_eq_right (by omega)] at hturn
      refine ⟨[_], .last hturn, ?_, ?_⟩
      · rw [Nat.div_eq_of_lt (by omega)]
        rfl
      · simp

end Run

/-- A reader has no choice. -/
theorem Sees.unique {i : Nat} {cursor : Option String} {pages others : List (List Nat)}
    (h : r.Sees i cursor pages) (hothers : r.Sees i cursor others) : others = pages := by
  induction h generalizing others with
  | last hturn =>
    cases hothers with
    | last hturn' =>
      rw [hturn] at hturn'
      cases hturn'
      rfl
    | more hturn' _ =>
      rw [hturn] at hturn'
      cases hturn'
  | more hturn _ ih =>
    cases hothers with
    | last hturn' =>
      rw [hturn] at hturn'
      cases hturn'
    | more hturn' hnext =>
      rw [hturn] at hturn'
      cases hturn'
      rw [ih hnext]

/-- A reader who follows the cursors sees every row of a table once and in order, and knows the last
page by its having no cursor. -/
theorem sees_table {r : Reader} {q : Query} (hq : Query.parse r.request.query = .ok q)
    (hkind : q.kind = .records) {now : Time.Timestamp} {a : Artifact}
    (ha : (r.ask none).compile r.settings now = .ok a) {limit : Nat}
    (hlimit : a.pages.limit = some limit) (hpos : 1 ≤ limit) (hcount : r.count ≤ Cursor.maxOffset) :
    ∃ pages, r.Sees 0 none pages ∧ (∀ others, r.Sees 0 none others → others = pages) ∧
      pages.length = r.count / limit + 1 ∧ pages.flatten = List.range r.count := by
  obtain ⟨pages, hsees, hlength, hflatten⟩ :=
    sees_from hq hkind ha hlimit hcount (Or.inl ⟨rfl, rfl⟩) (Nat.zero_le _) hpos 0
  refine ⟨pages, hsees, fun _ hothers => hsees.unique hothers, hlength, ?_⟩
  rw [hflatten, List.range_eq_range']
  rfl

/-- Two pages fill a table of four rows, and the third is empty. The limit of the request takes the
place of that of the query, and the settings bound it. -/
theorem sees_table_even : ∃ (r : Reader) (q : Query) (a : Artifact) (pages : List (List Nat)),
    r.request.query = "show devices where last_seen >= today limit 1" ∧
    r.request.limit = some 5 ∧ r.settings.maxLimit = some 2 ∧ r.settings.backend = .arangoDb ∧
    r.count = 4 ∧ Query.parse r.request.query = .ok q ∧ q.kind = .records ∧
    (r.ask none).compile r.settings (r.clock 0) = .ok a ∧ a.pages.limit = some 2 ∧
    r.Sees 0 none pages ∧ pages.length = 3 ∧ pages.flatten = [0, 1, 2, 3] := by
  obtain ⟨r, hr⟩ : ∃ r : Reader,
      r = ⟨{ query := "show devices where last_seen >= today limit 1", limit := some 5 },
        ⟨.v4 [127, 0, 0, 1] 80, .arangoDb, .literal, some 2⟩, fun _ => .midnight ⟨2024, 1, 1⟩, 4⟩ :=
    ⟨_, rfl⟩
  obtain ⟨q, hq, hkind⟩ := toOption_map_eq_some_iff.1
    (show (Query.parse r.request.query).toOption.map Query.kind = some .records by
      rw [hr]
      decide +kernel)
  obtain ⟨a, ha, hlimit⟩ := toOption_map_eq_some_iff.1
    (show ((r.ask none).compile r.settings (r.clock 0)).toOption.map (fun a => a.pages.limit) =
      some (some 2) by
      rw [hr]
      decide +kernel)
  have hcount : r.count = 4 := by rw [hr]
  obtain ⟨pages, hsees, -, hlength, hflatten⟩ :=
    sees_table hq hkind ha hlimit (by decide) (by rw [hcount]; decide)
  rw [hcount] at hlength hflatten
  refine ⟨r, q, a, pages, ?_, ?_, ?_, ?_, hcount, hq, hkind, ha, hlimit, hsees, hlength, hflatten⟩
  all_goals rw [hr]

end Reader

/-! ## Sessions -/

/-- A turn that succeeds hands the cursor of its plan to the next. -/
theorem Session.run_cons_of_ok {settings : Settings} {now : Time.Timestamp} {query : String}
    {cursor : Option String} {t : Turn} {outcome : TurnOutcome}
    (h : turn settings now query (t.cursor.or cursor) t = .ok outcome) (turns : List Turn) :
    run settings now query cursor (t :: turns) =
      .ok outcome :: run settings now query outcome.plan.nextCursor turns := by
  simp only [run, h]

namespace Reader

variable {r : Reader}

/-- The turn of a session in which these rows come back. -/
def turnWith (r : Reader) (rows : List Nat) : Turn := ⟨rows.length, r.request.limit, .next, none⟩

/-- The reader can be in a session, in which the settings decide about the mode and the backend. -/
structure InSession (r : Reader) : Prop where
  /-- The request leaves the mode to the settings. -/
  mode : r.request.mode = none
  /-- The request leaves the backend to the settings. -/
  backend : r.request.backend = none

/-- The cursor is not blank, if there is one, and so it names a page. -/
def NamesPage (cursor : Option String) : Prop :=
  ∀ c ∈ cursor, Text.trimChars c.toList ≠ []

theorem InSession.page? (h : r.InSession) {cursor : Option String} (hcursor : NamesPage cursor) :
    (r.ask cursor).page? = Session.pageOf cursor .next := by
  cases cursor with
  | none => rfl
  | some cursor =>
    have hnot : ¬ (Text.trimChars cursor.toList).isEmpty := by
      simpa using hcursor cursor rfl
    simp only [Request.page?, ask, if_neg hnot, h.mode]
    rfl

/-- These rows come back for what a turn yields: those of the page that the statement asks for. -/
def Gives (r : Reader) (outcome : TurnOutcome) (rows : List Nat) : Prop :=
  ∃ a : Artifact, a.statement = outcome.statement ∧ a.pages = outcome.pending ∧ r.rows a = rows

theorem InSession.session_turn_eq_ok_iff (h : r.InSession) {cursor : Option String} {i : Nat}
    {rows : List Nat} {outcome : TurnOutcome} :
    Session.turn r.settings (r.clock i) r.request.query cursor (r.turnWith rows) = .ok outcome ↔
      ∃ a plan, (r.ask cursor).compile r.settings (r.clock i) = .ok a ∧
        Paging.plan (Session.pageOf cursor .next) a.pages.limit rows.length = .ok plan ∧
        ⟨a.statement, a.pages, plan⟩ = outcome := by
  have hask : r.ask cursor = ⟨r.request.query, r.request.limit, cursor, .next, none, none⟩ := by
    simp only [ask, h.mode, h.backend]
  rw [hask]
  simp [Session.turn, turnWith, bind_eq_ok_iff, mapError_eq_ok_iff]

/-- A turn of the reader is a turn of a session: the one in which the rows of the page come back. -/
theorem InSession.turn_eq_ok_iff (h : r.InSession) {cursor : Option String}
    (hcursor : NamesPage cursor) {i : Nat} {rows : List Nat} {next : Option String} :
    r.turn i cursor = .ok (rows, next) ↔ ∃ outcome,
      Session.turn r.settings (r.clock i) r.request.query cursor (r.turnWith rows) = .ok outcome ∧
      r.Gives outcome rows ∧ outcome.plan.nextCursor = next := by
  have hturn : r.turn i cursor = .ok (rows, next) ↔
      ∃ a plan, (r.ask cursor).compile r.settings (r.clock i) = .ok a ∧
        Paging.plan (Session.pageOf cursor .next) a.pages.limit (r.rows a).length = .ok plan ∧
        r.rows a = rows ∧ plan.nextCursor = next := by
    simp [turn, h.page? hcursor, bind_eq_ok_iff, mapError_eq_ok_iff]
  rw [hturn]
  constructor
  · rintro ⟨a, plan, ha, hplan, rfl, hnext⟩
    exact ⟨_, h.session_turn_eq_ok_iff.2 ⟨a, plan, ha, hplan, rfl⟩, ⟨a, rfl, rfl, rfl⟩, hnext⟩
  · rintro ⟨outcome, houtcome, ⟨b, hstatement, hpages, rfl⟩, hnext⟩
    obtain ⟨a, plan, ha, hplan, rfl⟩ := h.session_turn_eq_ok_iff.1 houtcome
    have hrows : r.rows a = r.rows b := by
      simp only [rows, hstatement, hpages]
    exact ⟨a, plan, ha, hrows ▸ hplan, hrows, hnext⟩

/-- The cursor of a next page is never blank. -/
theorem namesPage_of_turn {i : Nat} {cursor : Option String} {rows : List Nat} {next : String}
    (h : r.turn i cursor = .ok (rows, some next)) : NamesPage (some next) := by
  obtain ⟨a, -, h⟩ := bind_eq_ok_iff.1 h
  obtain ⟨plan, hplan, h⟩ := bind_eq_ok_iff.1 h
  obtain ⟨offset, -, rfl⟩ := Paging.plan_eq_ok_iff.1 (mapError_eq_ok_iff.1 hplan)
  obtain ⟨l, -, -, -, rfl⟩ := Paging.nextCursor_eq_some_iff.1 (Prod.mk.inj (Except.ok.inj h)).2
  intro cursor hcursor
  obtain rfl := Option.some.inj hcursor
  rw [Cursor.trimChars_encode]
  exact Cursor.encode_ne_nil _

/-- The pages that a reader sees are those of a session: no turn fails, the rows of each page come
back for its statement, and only after the last turn there is no further cursor. -/
theorem Sees.run_session (hsession : r.InSession) {now : Time.Timestamp}
    (hclock : ∀ i, r.clock i = now) {i : Nat} {cursor : Option String} {pages : List (List Nat)}
    (h : r.Sees i cursor pages) (hcursor : NamesPage cursor) :
    ∃ outcomes : List TurnOutcome,
      Session.run r.settings now r.request.query cursor (pages.map r.turnWith) =
        outcomes.map .ok ∧
      List.Forall₂ r.Gives outcomes pages ∧
      ∃ before last, outcomes = before ++ [last] ∧ last.plan.nextCursor = none ∧
        ∀ outcome ∈ before, outcome.plan.nextCursor ≠ none := by
  induction h with
  | last hturn =>
    obtain ⟨outcome, houtcome, hgives, hnext⟩ := (hsession.turn_eq_ok_iff hcursor).1 hturn
    rw [hclock] at houtcome
    exact ⟨[outcome], Session.run_cons_of_ok houtcome [], .cons hgives .nil, [], outcome, rfl,
      hnext, by simp⟩
  | more hturn _ ih =>
    obtain ⟨outcome, houtcome, hgives, hnext⟩ := (hsession.turn_eq_ok_iff hcursor).1 hturn
    rw [hclock] at houtcome
    obtain ⟨outcomes, hrun, hpages, before, last, rfl, hlast, hbefore⟩ :=
      ih (namesPage_of_turn hturn)
    refine ⟨outcome :: (before ++ [last]), ?_, .cons hgives hpages, outcome :: before, last, rfl,
      hlast, ?_⟩
    · rw [List.map_cons, Session.run_cons_of_ok houtcome, hnext, hrun]
      rfl
    · exact List.forall_mem_cons.2 ⟨by simp [hnext], hbefore⟩

end Reader

end NetQuery
