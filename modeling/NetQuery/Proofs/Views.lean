import NetQuery.Proofs.FieldTexts
import NetQuery.Query.Viz

/-!
# Views of a result

A view names the columns that it would show. The name along the first axis comes from the text of an
ordering, in small letters; the columns of the result come from the catalog; and what a column
stands for comes from its type and its name. That the three fit together rests on the catalog: its
names are in small letters, no entity has a name twice, and none is called `count`.
-/

namespace NetQuery

/-! ## What columns stand for -/

namespace Column

theorem semantic?_eq_time {c : Column} (h : c.type = .timestamptz) : c.semantic? = some .time := by
  rw [semantic?, if_pos h]

theorem semantic?_eq_value_iff {c : Column} : c.semantic? = some .value ↔
    c.type ≠ .timestamptz ∧ (c.name = "count" ∨ c.type = .float) := by
  unfold semantic?
  by_cases htime : c.type = .timestamptz
  · simp [htime]
  · by_cases hvalue : c.name = "count" ∨ c.type = .float
    · simp [htime, hvalue]
    · rw [if_neg htime, if_neg (by simpa using hvalue)]
      simp only [hvalue, and_false, iff_false]
      split
      · simp
      · split <;> simp

end Column

/-! ## The catalog -/

namespace Entity

variable {e : Entity} {c : Column}

theorem lower_name (hc : c ∈ e.columns) : Text.lower c.name = c.name := by
  have hall : e.columns.all fun c => Text.lower c.name == c.name := by cases e <;> decide +kernel
  simpa using List.all_eq_true.1 hall c hc

theorem name_ne (hc : c ∈ e.columns) : c.name ≠ "count" ∧ c.name ≠ "" := by
  have hall : ∀ c ∈ e.columns, c.name ≠ "count" ∧ c.name ≠ "" := by cases e <;> decide +kernel
  exact hall c hc

theorem nodup_names (e : Entity) : (e.columns.map Column.name).Nodup := by
  cases e <;> decide +kernel

/-- The columns of an entity are told apart by their names in any case. -/
theorem eq_of_lower_name_eq {c' : Column} (hc : c ∈ e.columns) (hc' : c' ∈ e.columns)
    (h : Text.lower c.name = Text.lower c'.name) : c = c' := by
  rw [lower_name hc, lower_name hc'] at h
  exact List.inj_on_of_nodup_map e.nodup_names hc hc' h

theorem columnType?_eq_some_iff {name : String} {type : ColumnType} :
    e.columnType? name = some type ↔
      ∃ c ∈ e.columns, Text.agree c.name name ∧ c.type = type := by
  unfold columnType?
  constructor
  · intro h
    obtain ⟨c, hfind, htype⟩ := Option.map_eq_some_iff.1 h
    have hagree := List.find?_some hfind
    exact ⟨c, List.mem_of_find?_eq_some hfind, hagree, htype⟩
  · rintro ⟨c, hc, hagree, rfl⟩
    cases hfind : e.columns.find? fun column => Text.agree column.name name with
    | none => exact absurd hagree (List.find?_eq_none.1 hfind c hc)
    | some c' =>
      have hagree' := List.find?_some hfind
      simp only [Text.agree, beq_iff_eq] at hagree hagree'
      have heq : c' = c :=
        eq_of_lower_name_eq (List.mem_of_find?_eq_some hfind) hc (hagree'.trans hagree.symm)
      rw [heq]
      rfl

theorem semantic?_eq_value_iff_float (hc : c ∈ e.columns) :
    c.semantic? = some .value ↔ c.type = .float := by
  rw [Column.semantic?_eq_value_iff]
  constructor
  · rintro ⟨-, hcount | hfloat⟩
    · exact absurd hcount (name_ne hc).1
    · exact hfloat
  · intro hfloat
    exact ⟨by simp [hfloat], Or.inr hfloat⟩

end Entity

/-! ## Views -/

namespace Query

variable {q : Query} {x y : String}

/-- The first key of the ordering names the given column of times of the entity, in any case. -/
def OrdersByTime (q : Query) (c : Column) : Prop :=
  ∃ item column, q.orderBy.head? = some item ∧ FieldRef.Names item.field column ∧
    c ∈ q.entity.columns ∧ Text.agree c.name column ∧ c.type = .timestamptz

theorem timeColumn?_eq_some_iff : q.timeColumn? = some x ↔ ∃ c, q.OrdersByTime c ∧ c.name = x := by
  unfold timeColumn? OrdersByTime
  cases horder : q.orderBy with
  | nil => simp
  | cons item items =>
    simp only [List.head?_cons, Option.some.injEq]
    constructor
    · intro h
      split at h
      next htype =>
        obtain rfl := Option.some.inj h
        obtain ⟨c, hc, hagree, htime⟩ := Entity.columnType?_eq_some_iff.1 htype
        simp only [Text.agree, Lexer.lower_lower, beq_iff_eq] at hagree
        rw [Entity.lower_name hc] at hagree
        -- A call without arguments names no column, and no column has an empty name.
        cases hargs : (FieldRef.ofText item.field).args.head? with
        | none =>
          rw [FieldRef.column, hargs] at hagree
          exact absurd hagree (Entity.name_ne hc).2
        | some column =>
          have hcolumn : (FieldRef.ofText item.field).column = column := by
            rw [FieldRef.column, hargs]
            rfl
          refine ⟨c, ⟨item, column, rfl, FieldRef.names_iff.2 hargs, hc, ?_, htime⟩, hagree⟩
          rw [Text.agree, beq_iff_eq, Entity.lower_name hc, hagree, hcolumn]
      next => cases h
    · rintro ⟨c, ⟨item', column, rfl, hnames, hc, hagree, htime⟩, rfl⟩
      have hcolumn : (FieldRef.ofText item.field).column = column := by
        rw [FieldRef.column, FieldRef.names_iff.1 hnames]
        rfl
      have hlower : Text.lower column = c.name := by
        simp only [Text.agree, beq_iff_eq] at hagree
        rw [← hagree, Entity.lower_name hc]
      have htype : q.entity.columnType? c.name = some .timestamptz :=
        Entity.columnType?_eq_some_iff.2 ⟨c, hc, by simp [Text.agree], htime⟩
      rw [hcolumn, hlower, if_pos htype]

theorem exists_of_valueColumn? (h : q.valueColumn? = some y) :
    ∃ c ∈ q.entity.columns, c.name = y ∧ c.semantic? = some .value := by
  obtain ⟨c, hfind, hname⟩ := Option.map_eq_some_iff.1 h
  exact ⟨c, List.mem_of_find?_eq_some hfind, hname, by simpa using List.find?_some hfind⟩

theorem exists_valueColumn?_iff :
    (∃ y, q.valueColumn? = some y) ↔ ∃ c ∈ q.entity.columns, c.type = .float := by
  constructor
  · rintro ⟨y, h⟩
    obtain ⟨c, hc, -, hvalue⟩ := exists_of_valueColumn? h
    exact ⟨c, hc, (Entity.semantic?_eq_value_iff_float hc).1 hvalue⟩
  · rintro ⟨c, hc, hfloat⟩
    have hvalue := (Entity.semantic?_eq_value_iff_float hc).2 hfloat
    cases hfind : q.entity.columns.find? fun c => c.semantic? = some .value with
    | none => exact absurd (by simpa using hvalue) (List.find?_eq_none.1 hfind c hc)
    | some c' => exact ⟨c'.name, by rw [valueColumn?, hfind]; rfl⟩

end Query

/-- Every view shows columns that the result has: one of times along the first axis, and one of
values along the second. -/
structure Viz.ShowsOwnColumns (v : Viz) : Prop where
  x : ∀ s ∈ v.suggestions, ∀ name ∈ s.x, ∃ c ∈ v.columns,
    c.column.name = name ∧ c.column.type = .timestamptz ∧ c.semantic = some .time
  y : ∀ s ∈ v.suggestions, ∀ name ∈ s.y, ∃ c ∈ v.columns,
    c.column.name = name ∧ c.semantic = some .value

namespace Query

variable {q : Query}

theorem viz_of_count (h : q.kind = .count) : q.viz =
    ⟨[Column.info ⟨"count", .int⟩], [⟨.stat, none, some "count"⟩]⟩ := by
  rw [viz, h]

/-- The views of records are the table and, where there are times and values, the series. -/
theorem mem_suggestions_iff (h : q.kind = .records) (s : Suggestion) : s ∈ q.viz.suggestions ↔
    s = ⟨.table, none, none⟩ ∨ ∃ x y, q.timeColumn? = some x ∧ q.valueColumn? = some y ∧
      s = ⟨.timeseries, some x, some y⟩ := by
  rw [viz, h]
  cases htime : q.timeColumn? with
  | none => simp
  | some x =>
    cases hvalue : q.valueColumn? with
    | none => simp
    | some y => simp

theorem columns_viz (h : q.kind = .records) :
    q.viz.columns = q.entity.columns.map Column.info := by
  rw [viz, h]

theorem showsOwnColumns_viz (q : Query) : q.viz.ShowsOwnColumns := by
  cases hkind : q.kind with
  | count =>
    rw [viz_of_count hkind]
    constructor
    · simp
    · simp [Column.info, Column.semantic?]
  | records =>
    constructor
    · intro s hs name hname
      rcases (mem_suggestions_iff hkind s).1 hs with rfl | ⟨x, y, hx, -, rfl⟩
      · cases hname
      · obtain rfl : x = name := by simpa using hname
        obtain ⟨c, ⟨item, column, -, -, hc, -, htime⟩, hcname⟩ := timeColumn?_eq_some_iff.1 hx
        rw [columns_viz hkind]
        exact ⟨c.info, List.mem_map_of_mem hc, hcname, htime, Column.semantic?_eq_time htime⟩
    · intro s hs name hname
      rcases (mem_suggestions_iff hkind s).1 hs with rfl | ⟨x, y, -, hy, rfl⟩
      · cases hname
      · obtain rfl : y = name := by simpa using hname
        obtain ⟨c, hc, hcname, hvalue⟩ := exists_of_valueColumn? hy
        rw [columns_viz hkind]
        exact ⟨c.info, List.mem_map_of_mem hc, hcname, hvalue⟩

theorem exists_series_iff (h : q.kind = .records) :
    (∃ s ∈ q.viz.suggestions, s.view = .timeseries) ↔
      (∃ x, q.timeColumn? = some x) ∧ ∃ y, q.valueColumn? = some y := by
  constructor
  · rintro ⟨s, hs, hview⟩
    rcases (mem_suggestions_iff h s).1 hs with rfl | ⟨x, y, hx, hy, -⟩
    · cases hview
    · exact ⟨⟨x, hx⟩, y, hy⟩
  · rintro ⟨⟨x, hx⟩, y, hy⟩
    exact ⟨_, (mem_suggestions_iff h _).2 (Or.inr ⟨x, y, hx, hy, rfl⟩), rfl⟩

/-- The views of a result show columns of the result, and a series is among them exactly where
records are ordered first by a column of times and the entity has a column of numbers. -/
theorem views_fit_columns (q : Query) : q.viz.ShowsOwnColumns ∧
    ((∃ s ∈ q.viz.suggestions, s.view = .timeseries) ↔
      q.kind = .records ∧ (∃ c, q.OrdersByTime c) ∧ ∃ c ∈ q.entity.columns, c.type = .float) := by
  refine ⟨q.showsOwnColumns_viz, ?_⟩
  cases hkind : q.kind with
  | count => simp [viz_of_count hkind]
  | records =>
    have htime : (∃ x, q.timeColumn? = some x) ↔ ∃ c, q.OrdersByTime c := by
      simp only [timeColumn?_eq_some_iff]
      constructor
      · rintro ⟨x, c, hc, -⟩
        exact ⟨c, hc⟩
      · rintro ⟨c, hc⟩
        exact ⟨c.name, c, hc, rfl⟩
    rw [exists_series_iff hkind, htime, exists_valueColumn?_iff]
    simp

/-- The column is found behind an empty argument, in capitals and between blanks. -/
example : (viz ⟨.records, .cpuMetrics, [], [⟨"Date( , TIMEstamp\t, b)", .descending⟩], none, false,
    none⟩).suggestions =
      [⟨.table, none, none⟩, ⟨.timeseries, some "timestamp", some "usage_percent"⟩] := by
  decide +kernel

end Query

end NetQuery
