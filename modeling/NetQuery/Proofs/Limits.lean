import NetQuery.Proofs.Pages

/-!
# Limits and offsets in statements

A limit comes from the text of a query or from the request, the settings bound it, and a count drops
it; an offset comes from a cursor. Here a statement is taken as a row of clauses, and what is said
of the limit and the offset in its text is set against what was asked for. The limit that is echoed
is the limit in the text, and an offset is never in the text without one.
-/

namespace NetQuery

/-! ## Statements as rows of clauses -/

namespace Shape

/-- The clauses that say how many rows a statement gives at most and how many it passes over. -/
def paging (shape : Shape) (limit : Option Nat) (offset : Nat) : List String :=
  match limit, shape with
  | none, _ => []
  | some n, .sql _ =>
    if 0 < offset then ["LIMIT " ++ toString n, "OFFSET " ++ toString offset]
    else ["LIMIT " ++ toString n]
  | some n, .document _ _ =>
    if 0 < offset then ["LIMIT " ++ toString offset ++ ", " ++ toString n]
    else ["LIMIT " ++ toString n]

/-- The clause of an ordering, if there is one. -/
def ordering (word : String) (order : List String) : List String :=
  if order.isEmpty then [] else [word ++ Text.join ", " order]

/-- The text of a statement, put together from its clauses. -/
def layout (shape : Shape) (kind : QueryKind) (source : String) (filter : Option String)
    (order paging : List String) : String :=
  match shape with
  | .sql countProjection =>
    let projection := if kind = .count then countProjection else "*"
    Text.join " " (("SELECT " ++ projection ++ " FROM " ++ source) ::
      (filter.toList.map ("WHERE " ++ ·) ++ (ordering "ORDER BY " order ++ paging)))
  | .document binder separator =>
    let body := Text.join separator (("FOR " ++ binder ++ " IN " ++ source) ::
      (filter.toList.map ("FILTER " ++ ·) ++ (ordering "SORT " order ++ paging ++
        ["RETURN " ++ binder])))
    if kind = .count then "RETURN LENGTH(\n" ++ body ++ "\n)" else body

end Shape

namespace Text

theorem join_cons (separator s : String) (ts : List String) :
    join separator (s :: ts) = s ++ concat (ts.map (separator ++ ·)) := by
  induction ts generalizing s with
  | nil => simp [join, concat]
  | cons t ts ih => simp [join, concat, ih, String.append_assoc]

theorem concat_append (ss ts : List String) : concat (ss ++ ts) = concat ss ++ concat ts := by
  induction ss with
  | nil => simp [concat]
  | cons s ss ih => simp [concat, ih, String.append_assoc]

end Text

namespace Piece

variable (d : Dialect) (mode : Mode)

theorem write_text_cons (s : String) (ps : List Piece) :
    write d mode (.text s :: ps) = s ++ write d mode ps := by
  cases mode <;> rfl

theorem write_append_texts (ps : List Piece) (ts : List String) :
    write d mode (ps ++ ts.map .text) = write d mode ps ++ Text.concat ts := by
  induction ts generalizing ps with
  | nil => simp [Text.concat]
  | cons t ts ih =>
    rw [List.map_cons, List.append_cons, ih, write_append_text, Text.concat, String.append_assoc]

/-- A head, a filter if there is one, and further clauses, with a separator before each. -/
theorem write_clauses (separator head word : String) (filter : Option (List Piece))
    (clauses : List String) :
    write d mode (.text head :: (filter.elim [] (.text (separator ++ word) :: ·) ++
      (clauses.map (separator ++ ·)).map .text)) =
    Text.join separator
      (head :: ((filter.map (write d mode)).toList.map (word ++ ·) ++ clauses)) := by
  rw [write_text_cons, write_append_texts, Text.join_cons, List.map_append, Text.concat_append]
  cases filter with
  | none => cases mode <;> simp [write, numbered, embedded, Text.concat]
  | some filter =>
    simp only [Option.elim_some, write_text_cons]
    simp [Text.concat, String.append_assoc]

end Piece

namespace Clauses

variable {c : Clauses}

theorem ordering_pieces (separator word : String) (order : List String) :
    (if order.isEmpty then [] else [.text (separator ++ word ++ Text.join ", " order)]) =
      ((Shape.ordering word order).map (separator ++ ·)).map Piece.text := by
  unfold Shape.ordering
  split <;> simp [String.append_assoc]

/-- Without a limit there is no offset, so an SQL statement never has an offset alone. -/
theorem sql_eq (h : c.limit = none → c.offset = 0) (countProjection : String) :
    c.sql countProjection =
      .text ("SELECT " ++ (if c.kind = .count then countProjection else "*") ++ " FROM " ++
        c.source) ::
      (c.filter.elim [] (.text (" " ++ "WHERE ") :: ·) ++
        ((Shape.ordering "ORDER BY " c.order ++
          (Shape.sql countProjection).paging c.limit c.offset).map (" " ++ ·)).map .text) := by
  obtain ⟨kind, source, filter, order, limit, offset⟩ := c
  rw [List.map_append, List.map_append, ← ordering_pieces]
  cases limit with
  | none =>
    obtain rfl : offset = 0 := h rfl
    cases kind <;> cases filter <;> simp [sql, Shape.paging]
  | some limit =>
    by_cases hoffset : 0 < offset <;> cases kind <;> cases filter <;>
      simp [sql, Shape.paging, hoffset, ← String.append_assoc]

theorem document_eq (binder separator : String) :
    c.document binder separator =
      let body := .text ("FOR " ++ binder ++ " IN " ++ c.source) ::
        (c.filter.elim [] (.text (separator ++ "FILTER ") :: ·) ++
        ((Shape.ordering "SORT " c.order ++
          (Shape.document binder separator).paging c.limit c.offset ++
          ["RETURN " ++ binder]).map (separator ++ ·)).map .text)
      if c.kind = .count then .text "RETURN LENGTH(\n" :: (body ++ [.text "\n)"]) else body := by
  obtain ⟨kind, source, filter, order, limit, offset⟩ := c
  simp only [List.map_append, ← ordering_pieces]
  cases limit with
  | none => cases kind <;> cases filter <;> simp [document, Shape.paging, String.append_assoc]
  | some limit =>
    by_cases hoffset : 0 < offset <;> cases kind <;> cases filter <;>
      simp [document, Shape.paging, hoffset, String.append_assoc]

/-- The clauses of a statement stand in its text one after the other. -/
theorem write_statement (h : c.limit = none → c.offset = 0) (d : Dialect) (mode : Mode)
    (shape : Shape) :
    Piece.write d mode (c.statement shape) =
      shape.layout c.kind c.source (c.filter.map (Piece.write d mode)) c.order
        (shape.paging c.limit c.offset) := by
  cases shape with
  | sql countProjection =>
    rw [statement, sql_eq h, Piece.write_clauses]
    rfl
  | document binder separator =>
    rw [statement, document_eq, Shape.layout]
    simp only
    split
    next =>
      rw [Piece.write_text_cons, Piece.write_append_text, Piece.write_clauses]
      exact (String.append_assoc ..).symm
    next => rw [Piece.write_clauses]

end Clauses

/-! ## Queries -/

/-- Without a limit no page but the first is found. -/
theorem Paging.offset_eq_zero {page : Option Page} {limit : Option Nat} {offset : Nat}
    (h : Paging.offsetOf page limit = .ok offset) (hlimit : limit = none) : offset = 0 := by
  subst hlimit
  cases page with
  | none => exact (Except.ok.inj h).symm
  | some page => cases h

/-- The statement of a query is the row of its clauses, and the limit in it is the one that is
echoed. -/
theorem Query.compile_layout {q : Query} {backend : Backend} {mode : Mode} {now : Time.Timestamp}
    {a : Artifact} (h : q.compile backend mode now = .ok a) :
    ∃ source offset filter order, backend.dialect.source q.entity = some source ∧
      Paging.offsetOf q.appliedPage q.appliedLimit = .ok offset ∧
      Compiler.filter (q.context backend now) q.conditions = .ok filter ∧
      Compiler.order (q.context backend now) q.appliedOrder = .ok order ∧
      a.pages = Paging.pending q.appliedPage q.appliedLimit ∧
      a.statement = backend.dialect.shape.layout q.kind source
        (filter.map (Piece.write backend.dialect mode)) order
        (backend.dialect.shape.paging q.appliedLimit offset) := by
  obtain ⟨ps, hps, rfl⟩ := compile_eq_ok_iff.1 h
  obtain ⟨source, offset, filter, order, hsource, hoffset, hfilter, horder, rfl⟩ :=
    pieces_eq_ok_iff.1 hps
  refine ⟨source, offset, filter, order, hsource, hoffset, hfilter, horder, rfl, ?_⟩
  exact Clauses.write_statement (Paging.offset_eq_zero hoffset) _ _ _

/-- A count does not look at its limit or its page. -/
theorem Query.compile_count {q : Query} (hkind : q.kind = .count) (limit limit' : Option Nat)
    (page page' : Option Page) (backend : Backend) (mode : Mode) (now : Time.Timestamp) :
    Query.compile { q with limit := limit, page := page } backend mode now =
      Query.compile { q with limit := limit', page := page' } backend mode now := by
  obtain ⟨kind, entity, conditions, orderBy, _, latest, _⟩ := q
  subst hkind
  rfl

/-! ## Requests -/

namespace Request

/-- The request has no cursor or a blank one, and so asks for the first page. -/
def FromStart (r : Request) : Prop := ∀ cursor ∈ r.cursor, ∀ c ∈ cursor.toList, Text.isBlank c

/-- The page that the request asks for starts at the given offset. -/
def StartsAt (r : Request) (offset : Nat) : Prop :=
  (r.FromStart ∧ offset = 0) ∨
    ¬ r.FromStart ∧ ∃ cursor, r.cursor = some cursor ∧ Cursor.decode cursor = .ok offset

/-- The limit that is asked for: that of the request, and otherwise that of its query. -/
def asked (r : Request) (q : Query) : Option Nat := (r.limit.map Int.toNat).or q.limit

/-- A limit is bounded by the settings. -/
def bounded (settings : Settings) (limit : Option Nat) : Option Nat :=
  limit.map fun n => settings.maxLimit.elim n (min n)

variable {r : Request} {settings : Settings}

theorem page?_eq_none_iff : r.page? = none ↔ r.FromStart := by
  unfold page? FromStart
  cases r.cursor with
  | none => simp
  | some cursor => simp [List.isEmpty_iff, Text.trimChars_eq_nil_iff]

theorem exists_page? (h : ¬ r.FromStart) :
    ∃ cursor, r.cursor = some cursor ∧ r.page? = some ⟨cursor, r.direction, r.mode⟩ := by
  rw [← page?_eq_none_iff] at h
  cases hcursor : r.cursor with
  | none => exact absurd (by simp only [page?, hcursor]) h
  | some cursor =>
    simp only [page?, hcursor] at h ⊢
    split at h
    next => exact absurd rfl h
    next hblank => exact ⟨cursor, rfl, if_neg hblank⟩

/-- A page that is found starts at its offset, and without a limit none but the first is found. -/
theorem startsAt_of_offsetOf {limit : Option Nat} {offset : Nat}
    (h : Paging.offsetOf r.page? limit = .ok offset) :
    r.StartsAt offset ∧ (limit = none → r.FromStart) := by
  by_cases hstart : r.FromStart
  · rw [page?_eq_none_iff.2 hstart] at h
    cases h
    exact ⟨Or.inl ⟨hstart, rfl⟩, fun _ => hstart⟩
  · obtain ⟨cursor, hcursor, hpage⟩ := exists_page? hstart
    rw [hpage] at h
    cases limit with
    | none => cases h
    | some limit => exact ⟨Or.inr ⟨hstart, cursor, hcursor, h⟩, nofun⟩

theorem limitOver_eq_ok_iff {q : Query} {limit : Option Nat} :
    r.limitOver q = .ok limit ↔ (∀ n ∈ r.limit, 0 ≤ n) ∧ limit = r.asked q := by
  unfold limitOver asked
  cases r.limit with
  | none => simp [eq_comm]
  | some n =>
    by_cases hn : 0 ≤ n
    · simp [hn, eq_comm]
    · simp [hn]

theorem clamp_eq_bounded (limit : Option Nat) :
    clamp settings.maxLimit limit = bounded settings limit := by
  unfold clamp bounded
  cases limit <;> cases settings.maxLimit <;> rfl

variable {now : Time.Timestamp} {q : Query} {a : Artifact}

/-- The statement of a request is a row of clauses that hold what was asked for. The limit that is
echoed is the limit in the text; the offset in the text is the one of the cursor, and where there is
no limit there is no cursor either. A count has neither limit nor offset nor ordering, and is the
same whatever limit and cursor come with it. -/
theorem statement_eq_layout (hq : Query.parse r.query = .ok q) {backend : Backend}
    (hbackend : r.backend.getD settings.backend = backend) (ha : r.compile settings now = .ok a) :
    ∃ mode source filter, r.modeUnder settings = .ok mode ∧
      backend.dialect.source q.entity = some source ∧
      Compiler.filter (q.context backend now) q.conditions = .ok filter ∧
      (q.kind = .records → ∃ order offset,
        Compiler.order (q.context backend now) q.orderBy = .ok order ∧
        (∀ n ∈ r.limit, 0 ≤ n) ∧ a.pages.limit = bounded settings (r.asked q) ∧
        r.StartsAt offset ∧ (a.pages.limit = none → r.FromStart) ∧
        a.statement = backend.dialect.shape.layout .records source
          (filter.map (Piece.write backend.dialect mode)) order
          (backend.dialect.shape.paging a.pages.limit offset)) ∧
      (q.kind = .count → a.pages = ⟨none, none, none⟩ ∧
        a.statement = backend.dialect.shape.layout .count source
          (filter.map (Piece.write backend.dialect mode)) [] [] ∧
        ∀ limit cursor, (∀ n ∈ limit, 0 ≤ n) →
          Request.compile { r with limit := limit, cursor := cursor } settings now = .ok a) := by
  subst hbackend
  obtain ⟨q', mode, limit, hq', hmode, hlimit, hcompile⟩ := Request.compile_eq_ok_iff.1 ha
  obtain rfl : q = q' := Except.ok.inj (hq.symm.trans hq')
  obtain ⟨hnonneg, rfl⟩ := limitOver_eq_ok_iff.1 hlimit
  obtain ⟨source, offset, filter, order, hsource, hoffset, hfilter, horder, hpages, hstatement⟩ :=
    Query.compile_layout hcompile
  refine ⟨mode, source, filter, hmode, hsource, hfilter, fun hkind => ?_, fun hkind => ?_⟩
  · -- No text of a query names a page, so the page is that of the request.
    simp only [Query.appliedPage, Query.appliedLimit, Query.appliedOrder, hkind, clamp_eq_bounded,
      (Query.parse_formed hq).page, Option.or_none] at hoffset horder hpages hstatement
    obtain ⟨hstarts, hfirst⟩ := startsAt_of_offsetOf hoffset
    have hlimit : a.pages.limit = bounded settings (r.asked q) := congrArg PageInfo.limit hpages
    rw [hlimit]
    exact ⟨order, offset, horder, hnonneg, rfl, hstarts, hfirst, hstatement⟩
  · simp only [Query.appliedPage, Query.appliedLimit, Query.appliedOrder,
      hkind] at hoffset horder hpages hstatement
    cases hoffset
    cases horder
    refine ⟨hpages, hstatement, fun limit cursor hlimit => ?_⟩
    refine Request.compile_eq_ok_iff.2
      ⟨q, mode, _, hq, hmode, limitOver_eq_ok_iff.2 ⟨hlimit, rfl⟩, ?_⟩
    exact (Query.compile_count hkind _ _ _ _ _ _ _).trans hcompile

/-- A request whose limit replaces that of the query and is bounded in turn, from row 40 on. -/
theorem statement_eq_layout_from_forty : ∃ (r : Request) (settings : Settings) (q : Query)
    (a : Artifact) (mode : Mode) (source : String) (filter : Option (List Piece))
    (order : List String) (offset : Nat),
    r = { query := "show devices limit 1", limit := some 5, cursor := some "eyJvZmZzZXQiOjQwfQ" } ∧
    settings = ⟨.v4 [127, 0, 0, 1] 80, .arangoDb, .literal, some 2⟩ ∧
    Query.parse r.query = .ok q ∧ q.kind = .records ∧
    r.compile settings (.midnight ⟨2024, 1, 1⟩) = .ok a ∧
    a.statement = "FOR doc IN devices\n  LIMIT 40, 2\n  RETURN doc" ∧
    a.pages.limit = bounded settings (r.asked q) ∧ r.StartsAt offset ∧
    (a.pages.limit = none → r.FromStart) ∧
    a.statement = Backend.arangoDb.dialect.shape.layout .records source
      (filter.map (Piece.write Backend.arangoDb.dialect mode)) order
      (Backend.arangoDb.dialect.shape.paging a.pages.limit offset) := by
  obtain ⟨r, hr⟩ : ∃ r : Request, r =
      { query := "show devices limit 1", limit := some 5, cursor := some "eyJvZmZzZXQiOjQwfQ" } :=
    ⟨_, rfl⟩
  obtain ⟨settings, hsettings⟩ : ∃ settings : Settings,
      settings = ⟨.v4 [127, 0, 0, 1] 80, .arangoDb, .literal, some 2⟩ := ⟨_, rfl⟩
  obtain ⟨q, hq, hkind⟩ := toOption_map_eq_some_iff.1
    (show (Query.parse r.query).toOption.map Query.kind = some .records by
      rw [hr]
      decide +kernel)
  obtain ⟨a, ha, hstatement⟩ := toOption_map_eq_some_iff.1
    (show (r.compile settings (.midnight ⟨2024, 1, 1⟩)).toOption.map Artifact.statement =
      some "FOR doc IN devices\n  LIMIT 40, 2\n  RETURN doc" by
      rw [hr, hsettings]
      decide +kernel)
  obtain ⟨mode, source, filter, -, -, -, hrecords, -⟩ :=
    statement_eq_layout hq (show r.backend.getD settings.backend = .arangoDb by
      rw [hr, hsettings]
      rfl) ha
  obtain ⟨order, offset, -, -, hlimit, hstarts, hfirst, hlayout⟩ := hrecords hkind
  exact ⟨r, settings, q, a, mode, source, filter, order, offset, hr, hsettings, hq, hkind, ha,
    hstatement, hlimit, hstarts, hfirst, hlayout⟩

end Request

end NetQuery
