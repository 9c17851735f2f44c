import NetQuery.Proofs.Checks
import NetQuery.Proofs.Cursors

/-!
# Plans beside statements

A page is looked at twice: when the query is compiled, before there are any rows, and when the rows
have come back. Both times the cursor is read anew. The two agree on which pages can be found, on
why one cannot be, and on what they echo; and the cursor that a plan gives names a later place than
the one it was made at, short of the greatest offset.
-/

namespace NetQuery

/-! ## Offsets -/

namespace Cursor

theorem offsetValue?_le {tokens : List JsonToken} {n : Nat} (h : offsetValue? tokens = some n) :
    n ≤ maxOffset := by
  unfold offsetValue? at h
  split at h
  next =>
    split at h
    next hrange =>
      cases h
      simp only [Bool.and_eq_true, decide_eq_true_eq] at hrange
      exact hrange.2
    next => cases h
  next => cases h

theorem payloadOffset?_le {tokens : List JsonToken} {n : Nat} (h : payloadOffset? tokens = some n) :
    n ≤ maxOffset := by
  unfold payloadOffset? at h
  split at h
  next =>
    split at h
    next =>
      unfold offsetMember? at h
      split at h
      next =>
        split at h
        next => exact offsetValue?_le h
        next => cases h
      next => cases h
    next => cases h
  next =>
    split at h
    next => exact offsetValue?_le h
    next => cases h
  next => cases h

/-- No cursor leads beyond the greatest offset. -/
theorem le_of_decode {cursor : String} {n : Nat} (h : decode cursor = .ok n) : n ≤ maxOffset := by
  unfold decode at h
  split at h
  next => cases h
  next =>
    split at h
    next => cases h
    next hpayload =>
      cases h
      exact payloadOffset?_le hpayload

end Cursor

namespace Paging

/-- The first page starts at the first row, and any other where its cursor says. -/
def Starts (page : Option Page) (offset : Nat) : Prop :=
  (page = none ∧ offset = 0) ∨ ∃ p, page = some p ∧ Cursor.decode p.cursor = .ok offset

variable {page : Option Page} {limit : Option Nat} {rows offset : Nat}

theorem starts_of_offsetOf (h : offsetOf page limit = .ok offset) : Starts page offset := by
  cases page with
  | none => exact Or.inl ⟨rfl, (Except.ok.inj h).symm⟩
  | some page =>
    cases limit with
    | none => cases h
    | some limit => exact Or.inr ⟨page, rfl, h⟩

theorem Starts.le (h : Starts page offset) : offset ≤ Cursor.maxOffset := by
  rcases h with ⟨-, rfl⟩ | ⟨p, -, hdecode⟩
  · exact Nat.zero_le _
  · exact Cursor.le_of_decode hdecode

/-! ## Plans -/

theorem plan_eq_error_iff {fault : CursorFault} :
    plan page limit rows = .error fault ↔ offsetOf page limit = .error fault := by
  unfold plan
  cases offsetOf page limit <;> simp

theorem plan_eq_ok_iff {info : PageInfo} :
    plan page limit rows = .ok info ↔ ∃ offset, offsetOf page limit = .ok offset ∧
      ⟨nextCursor offset limit rows, prevCursor page, limit⟩ = info := by
  unfold plan
  cases offsetOf page limit <;> simp

theorem prevCursor_eq_some_iff {cursor : String} :
    prevCursor page = some cursor ↔
      ∃ p, page = some p ∧ p.direction = .prev ∧ p.cursor = cursor := by
  rcases page with _ | ⟨own, _ | _, mode⟩ <;> simp [prevCursor]

theorem nextCursor_eq_some_iff {cursor : String} :
    nextCursor offset limit rows = some cursor ↔ ∃ l, limit = some l ∧ 0 < l ∧ l ≤ rows ∧
      Cursor.encode (min (offset + l) Cursor.maxOffset) = cursor := by
  unfold nextCursor
  cases limit with
  | none => simp
  | some l => simp [and_assoc]

/-- The next page starts a whole page further on, if the offsets reach that far. -/
theorem decode_nextCursor {cursor : String} (h : nextCursor offset limit rows = some cursor) :
    ∃ l, limit = some l ∧ 0 < l ∧
      Cursor.decode cursor = .ok (min (offset + l) Cursor.maxOffset) := by
  obtain ⟨l, hlimit, hl, -, rfl⟩ := nextCursor_eq_some_iff.1 h
  exact ⟨l, hlimit, hl, Cursor.decode_encode (Nat.min_le_right _ _)⟩

end Paging

/-! ## Statements -/

namespace Query

section Page

variable {q : Query} (hkind : q.kind = .records) {backend : Backend} {mode : Mode}
  {now : Time.Timestamp} {a : Artifact}
  (ha : Query.compile { q with page := none } backend mode now = .ok a) {page : Option Page}
  {limit : Option Nat}

include hkind ha

/-- A query that can be compiled can be compiled for any page that is found. -/
theorem exists_compile_page {offset : Nat} (hoffset : Paging.offsetOf page limit = .ok offset) :
    ∃ b, Query.compile { q with page := page, limit := limit } backend mode now = .ok b ∧
      b.pages = Paging.pending page limit := by
  obtain ⟨ps, hps, -⟩ := compile_eq_ok_iff.1 ha
  obtain ⟨source, _, filter, order, hsource, -, hfilter, horder, -⟩ := pieces_eq_ok_iff.1 hps
  obtain ⟨kind, entity, conditions, orderBy, _, latest, _⟩ := q
  subst hkind
  exact ⟨_, compile_eq_ok_iff.2 ⟨_, pieces_eq_ok_iff.2
    ⟨source, offset, filter, order, hsource, hoffset, hfilter, horder, rfl⟩, rfl⟩, rfl⟩

/-- If a page is not found, then that is what is said of the query. -/
theorem compile_page_of_fault {fault : CursorFault}
    (hfault : Paging.offsetOf page limit = .error fault) :
    Query.compile { q with page := page, limit := limit } backend mode now =
      .error (.invalidCursor fault) := by
  obtain ⟨ps, hps, -⟩ := compile_eq_ok_iff.1 ha
  obtain ⟨source, _, _, _, hsource, -⟩ := pieces_eq_ok_iff.1 hps
  obtain ⟨kind, entity, conditions, orderBy, _, latest, _⟩ := q
  subst hkind
  rw [compile_eq_error_iff]
  exact (pieces_eq_error_iff (by exact hsource)).2 (Or.inl ⟨fault, hfault, rfl⟩)

end Page

end Query

namespace Paging

/-- A plan agrees with every statement for its page and limit: it is made exactly if the page is
found there, and otherwise fails alike. What it echoes is what the statement came with, and the next
cursor leads on by a whole page, up to the greatest offset. -/
theorem plan_agrees {q : Query} (hkind : q.kind = .records) {backend : Backend} {mode : Mode}
    {now : Time.Timestamp} {a : Artifact}
    (ha : Query.compile { q with page := none } backend mode now = .ok a) (page : Option Page)
    (limit : Option Nat) (rows : Nat) {compiled : Compiled Artifact}
    (hcompiled : Query.compile { q with page := page, limit := limit } backend mode now =
      compiled) :
    (∀ fault, plan page limit rows = .error fault ↔ compiled = .error (.invalidCursor fault)) ∧
    ((∃ info, plan page limit rows = .ok info) ↔ ∃ b, compiled = .ok b) ∧
    ∀ info, plan page limit rows = .ok info → ∃ b offset, compiled = .ok b ∧ Starts page offset ∧
      info.limit = limit ∧ b.pages.limit = limit ∧ info.prevCursor = b.pages.prevCursor ∧
      (∀ cursor, info.prevCursor = some cursor ↔
        ∃ p, page = some p ∧ p.direction = .prev ∧ p.cursor = cursor) ∧
      (info.nextCursor.isSome ↔ ∃ l, limit = some l ∧ 0 < l ∧ l ≤ rows) ∧
      ∀ next, info.nextCursor = some next → ∃ l, limit = some l ∧
        Cursor.decode next = .ok (min (offset + l) Cursor.maxOffset) ∧
        (offset ≠ Cursor.maxOffset → offset < min (offset + l) Cursor.maxOffset) := by
  subst hcompiled
  -- Whether the page is found decides both, since nothing else can fail.
  cases hoffset : offsetOf page limit with
  | error fault =>
    simp [plan_eq_error_iff, plan_eq_ok_iff, hoffset, Query.compile_page_of_fault hkind ha hoffset]
  | ok offset =>
    obtain ⟨b, hb, hpages⟩ := Query.exists_compile_page hkind ha hoffset
    refine ⟨by simp [plan_eq_error_iff, hoffset, hb], by simp [plan_eq_ok_iff, hoffset, hb], ?_⟩
    intro info hinfo
    obtain ⟨_, hoffset', rfl⟩ := plan_eq_ok_iff.1 hinfo
    cases hoffset.symm.trans hoffset'
    have hstarts := starts_of_offsetOf hoffset
    refine ⟨b, offset, hb, hstarts, rfl, by rw [hpages, pending], by rw [hpages, pending],
      fun _ => prevCursor_eq_some_iff, ?_, ?_⟩
    · simp [Option.isSome_iff_exists, nextCursor_eq_some_iff]
    · intro next hnext
      obtain ⟨l, hlimit, hl, hdecode⟩ := decode_nextCursor hnext
      refine ⟨l, hlimit, hdecode, fun hmax => ?_⟩
      have hle := hstarts.le
      omega

/-- A reader who turned back to the last offset but one, and whose next page can only start at the
greatest offset. -/
theorem plan_agrees_near_end : ∃ (q : Query) (page : Page) (a b : Artifact) (info : PageInfo)
    (offset : Nat), q.kind = .records ∧
    Query.compile { q with page := none } .clickHouse .literal (.midnight ⟨2024, 1, 1⟩) = .ok a ∧
    Query.compile { q with page := some page, limit := some 5 } .clickHouse .literal
      (.midnight ⟨2024, 1, 1⟩) = .ok b ∧
    plan (some page) (some 5) 7 = .ok info ∧
    page = ⟨"eyJvZmZzZXQiOjE4NDQ2NzQ0MDczNzA5NTUxNjE0fQ", .prev, none⟩ ∧
    info.nextCursor = some "eyJvZmZzZXQiOjE4NDQ2NzQ0MDczNzA5NTUxNjE1fQ" ∧
    info.prevCursor = b.pages.prevCursor ∧ b.pages.limit = some 5 ∧ Starts (some page) offset ∧
    Cursor.decode "eyJvZmZzZXQiOjE4NDQ2NzQ0MDczNzA5NTUxNjE1fQ" =
      .ok (min (offset + 5) Cursor.maxOffset) ∧
    (offset ≠ Cursor.maxOffset → offset < min (offset + 5) Cursor.maxOffset) := by
  obtain ⟨q, hq⟩ : ∃ q : Query, q = ⟨.records, .devices, [], [], none, false, none⟩ := ⟨_, rfl⟩
  obtain ⟨page, hpage⟩ : ∃ page : Page,
      page = ⟨"eyJvZmZzZXQiOjE4NDQ2NzQ0MDczNzA5NTUxNjE0fQ", .prev, none⟩ := ⟨_, rfl⟩
  have hkind : q.kind = .records := by rw [hq]
  obtain ⟨a, ha, -⟩ := toOption_map_eq_some_iff.1
    (show (Query.compile { q with page := none } .clickHouse .literal
      (.midnight ⟨2024, 1, 1⟩)).toOption.map Artifact.statement =
        some "SELECT * FROM devices" by
      rw [hq]
      decide +kernel)
  obtain ⟨info, hinfo, hnext⟩ := toOption_map_eq_some_iff.1
    (show (plan (some page) (some 5) 7).toOption.map PageInfo.nextCursor =
      some (some "eyJvZmZzZXQiOjE4NDQ2NzQ0MDczNzA5NTUxNjE1fQ") by
      rw [hpage]
      decide +kernel)
  obtain ⟨-, -, hplan⟩ := plan_agrees hkind ha (some page) (some 5) 7 rfl
  obtain ⟨b, offset, hb, hstarts, -, hlimit, hprev, -, -, hlater⟩ := hplan info hinfo
  obtain ⟨l, hl, hdecode, hlt⟩ := hlater _ hnext
  cases hl
  exact ⟨q, page, a, b, info, offset, hkind, ha, hb, hinfo, hpage, hnext, hprev, hlimit, hstarts,
    hdecode, hlt⟩

end Paging

end NetQuery
