import Mathlib
import NetQuery.Rows

/-!
# Aliases in rows

Aliases are added to a row one after the other, and each step reads the row that the steps before it
have left. That no alias is itself a column with an alias makes the order harmless: every step finds
its column as the first row had it. What a reader finds under a key afterwards is then told by the
first row alone (`Row.get?_addAliases`), and the laws of normalization are read off from that.
-/

namespace NetQuery

namespace Row

variable {row : Row} {source target key : String} {value : Json} {table : List (String × String)}

/-! ## One alias -/

theorem get?_append_single (row : Row) (target key : String) (value : Json) :
    get? (row ++ [(target, value)]) key =
      (row.get? key).or (if target = key then some value else none) := by
  unfold get?
  rw [List.find?_append]
  cases hfind : row.find? fun member => member.1 == key with
  | some member => rfl
  | none => by_cases hkey : target = key <;> simp [hkey]

theorem get?_addAlias (row : Row) (source target key : String) :
    (row.addAlias source target).get? key =
      (row.get? key).or (if target = key then row.get? source else none) := by
  unfold addAlias
  split
  next value htarget hsource => rw [get?_append_single, hsource]
  next hstay =>
    -- The row stays as it is: the target is taken, or there is nothing to copy.
    by_cases hkey : target = key
    · subst hkey
      cases htarget : row.get? target with
      | some value => rfl
      | none =>
        cases hsource : row.get? source with
        | none => simp
        | some value => exact absurd hsource (hstay value htarget)
    · simp [hkey]

theorem addAlias_of_present (h : row.get? source ≠ none → row.get? target ≠ none) :
    row.addAlias source target = row := by
  unfold addAlias
  split
  next value htarget hsource => exact absurd htarget (h (by simp [hsource]))
  next => rfl

theorem not_mem_keys (h : row.get? key = none) : key ∉ row.map Prod.fst := by
  intro hmem
  obtain ⟨member, hmember, rfl⟩ := List.mem_map.1 hmem
  have hnone := List.find?_eq_none.1 (Option.map_eq_none_iff.1 h) member hmember
  simp at hnone

theorem nodup_addAlias (h : (row.map Prod.fst).Nodup) (source target : String) :
    ((row.addAlias source target).map Prod.fst).Nodup := by
  unfold addAlias
  split
  next value htarget hsource =>
    rw [List.map_append]
    refine List.Nodup.append h (by simp) ?_
    simpa using not_mem_keys htarget
  next => exact h

/-! ## A table of aliases -/

/-- The row with the aliases of a table added, one after the other. -/
def addAliases (table : List (String × String)) (row : Row) : Row :=
  table.foldl (fun row pair => row.addAlias pair.1 pair.2) row

/-- What a table of aliases puts under a key, by the columns of a row. -/
def aliasValue? (table : List (String × String)) (row : Row) (key : String) : Option Json :=
  table.findSome? fun pair => if pair.2 = key then row.get? pair.1 else none

/-- No alias of the table is a column that has an alias. -/
def IsFlat (table : List (String × String)) : Prop :=
  ∀ pair ∈ table, ∀ pair' ∈ table, pair.2 ≠ pair'.1

/-- Every alias is there whose column is. -/
def IsSaturated (table : List (String × String)) (row : Row) : Prop :=
  ∀ pair ∈ table, row.get? pair.1 ≠ none → row.get? pair.2 ≠ none

theorem aliasValue?_cons (pair : String × String) (table : List (String × String)) (row : Row)
    (key : String) : aliasValue? (pair :: table) row key =
      (if pair.2 = key then row.get? pair.1 else none).or (aliasValue? table row key) := by
  unfold aliasValue?
  rw [List.findSome?_cons]
  split <;> simp_all

theorem aliasValue?_eq_none (h : ∀ pair ∈ table, pair.2 ≠ key) :
    aliasValue? table row key = none := by
  unfold aliasValue?
  rw [List.findSome?_eq_none_iff]
  intro pair hpair
  rw [if_neg (h pair hpair)]

theorem exists_of_aliasValue? (h : aliasValue? table row key = some value) :
    ∃ source, (source, key) ∈ table ∧ row.get? source = some value := by
  obtain ⟨⟨source, target⟩, hpair, hvalue⟩ := List.exists_of_findSome?_eq_some h
  split at hvalue
  next htarget => exact ⟨source, htarget ▸ hpair, hvalue⟩
  next => cases hvalue

theorem aliasValue?_ne_none {pair : String × String} (hpair : pair ∈ table)
    (h : row.get? pair.1 ≠ none) : aliasValue? table row pair.2 ≠ none := by
  intro hnone
  have hget := List.findSome?_eq_none_iff.1 hnone pair hpair
  rw [if_pos rfl] at hget
  exact h hget

/-- An alias that is no column of the table changes nothing for the others. -/
theorem aliasValue?_addAlias (h : ∀ pair ∈ table, target ≠ pair.1) (row : Row)
    (source key : String) :
    aliasValue? table (row.addAlias source target) key = aliasValue? table row key := by
  induction table with
  | nil => rfl
  | cons pair table ih =>
    have hpair : (row.addAlias source target).get? pair.1 = row.get? pair.1 := by
      rw [get?_addAlias, if_neg (h pair List.mem_cons_self), Option.or_none]
    have hrest := ih fun pair' hpair' => h pair' (List.mem_cons_of_mem _ hpair')
    rw [aliasValue?_cons, aliasValue?_cons, hpair, hrest]

/-- What is found under a key in the end: what was there, or else what the table puts there by the
columns of the first row. -/
theorem get?_addAliases (hflat : IsFlat table) (row : Row) (key : String) :
    (row.addAliases table).get? key = (row.get? key).or (aliasValue? table row key) := by
  induction table generalizing row with
  | nil => simp [addAliases, aliasValue?]
  | cons pair table ih =>
    have hrest : IsFlat table := fun a ha b hb =>
      hflat a (List.mem_cons_of_mem _ ha) b (List.mem_cons_of_mem _ hb)
    have hcolumns : ∀ pair' ∈ table, pair.2 ≠ pair'.1 := fun pair' hpair' =>
      hflat pair List.mem_cons_self pair' (List.mem_cons_of_mem _ hpair')
    calc (row.addAliases (pair :: table)).get? key
      _ = ((row.addAlias pair.1 pair.2).addAliases table).get? key := rfl
      _ = ((row.addAlias pair.1 pair.2).get? key).or (aliasValue? table row key) := by
          rw [ih hrest, aliasValue?_addAlias hcolumns]
      _ = (row.get? key).or (aliasValue? (pair :: table) row key) := by
          rw [get?_addAlias, aliasValue?_cons, Option.or_assoc]

theorem nodup_addAliases (table : List (String × String)) (h : (row.map Prod.fst).Nodup) :
    ((row.addAliases table).map Prod.fst).Nodup := by
  induction table generalizing row with
  | nil => exact h
  | cons pair table ih => exact ih (nodup_addAlias h pair.1 pair.2)

theorem isSaturated_addAliases (hflat : IsFlat table) (row : Row) :
    IsSaturated table (row.addAliases table) := by
  intro pair hpair hsource
  have hcolumn : aliasValue? table row pair.1 = none :=
    aliasValue?_eq_none fun pair' hpair' => hflat pair' hpair' pair hpair
  rw [get?_addAliases hflat, hcolumn, Option.or_none] at hsource
  rw [get?_addAliases hflat]
  intro hnone
  exact aliasValue?_ne_none hpair hsource (Option.or_eq_none_iff.1 hnone).2

theorem addAliases_of_isSaturated (h : IsSaturated table row) : row.addAliases table = row := by
  induction table with
  | nil => rfl
  | cons pair table ih =>
    have hstep : row.addAlias pair.1 pair.2 = row := addAlias_of_present (h pair List.mem_cons_self)
    calc row.addAliases (pair :: table)
      _ = (row.addAlias pair.1 pair.2).addAliases table := rfl
      _ = row.addAliases table := by rw [hstep]
      _ = row := ih fun pair' hpair' => h pair' (List.mem_cons_of_mem _ hpair')

end Row

/-! ## Normalization -/

namespace Entity

/-- How a row may differ from the row that it was made from. -/
structure Widens (e : Entity) (row out : Row) : Prop where
  /-- What was there is there, under the same key. -/
  kept : ∀ {key : String} {value : Json}, row.get? key = some value → out.get? key = some value
  /-- What is new stands under an alias and is what the row had under the column of the alias. -/
  added : ∀ {key : String} {value : Json}, row.get? key = none → out.get? key = some value →
    ∃ source, (source, key) ∈ e.aliases ∧ row.get? source = some value
  /-- An alias is there if its column is. -/
  complete : ∀ {source target : String}, (source, target) ∈ e.aliases → out.get? source ≠ none →
    out.get? target ≠ none
  /-- No key is there twice, if none was. -/
  distinct : (row.map Prod.fst).Nodup → (out.map Prod.fst).Nodup

theorem isFlat_aliases (e : Entity) : Row.IsFlat e.aliases := by
  unfold Row.IsFlat
  cases e <;> decide

theorem normalizeRow_eq (e : Entity) (row : Row) : e.normalizeRow row = row.addAliases e.aliases :=
  rfl

theorem widens_normalizeRow (e : Entity) (row : Row) : e.Widens row (e.normalizeRow row) where
  kept := by
    intro key value h
    rw [normalizeRow_eq, Row.get?_addAliases e.isFlat_aliases, h, Option.some_or]
  added := by
    intro key value hrow hout
    rw [normalizeRow_eq, Row.get?_addAliases e.isFlat_aliases, hrow, Option.none_or] at hout
    exact Row.exists_of_aliasValue? hout
  complete := by
    intro source target halias hsource
    exact Row.isSaturated_addAliases e.isFlat_aliases row (source, target) halias hsource
  distinct := Row.nodup_addAliases e.aliases

theorem normalizeRow_normalizeRow (e : Entity) (row : Row) :
    e.normalizeRow (e.normalizeRow row) = e.normalizeRow row := by
  simp only [normalizeRow_eq]
  exact Row.addAliases_of_isSaturated (Row.isSaturated_addAliases e.isFlat_aliases row)

/-- Normalization turns each row, in its place, into one that has the aliases as well, and doing it
again changes nothing. -/
theorem normalizeRows_widens (e : Entity) (rows : List Row) :
    List.Forall₂ e.Widens rows (e.normalizeRows rows) ∧
      e.normalizeRows (e.normalizeRows rows) = e.normalizeRows rows := by
  constructor
  · unfold normalizeRows
    rw [List.forall₂_map_right_iff, List.forall₂_same]
    exact fun row _ => e.widens_normalizeRow row
  · unfold normalizeRows
    rw [List.map_map]
    exact List.map_congr_left fun row _ => e.normalizeRow_normalizeRow row

/-- An alias that is there already keeps its value, and the others are added beside it. -/
example (a b c : Json) :
    normalizeRow .devices [("uid", a), ("last_seen", b), ("device_id", c)] =
      [("uid", a), ("last_seen", b), ("device_id", c), ("last_seen_time", b)] := rfl

end Entity

end NetQuery
