import NetQuery.Json.Basic
import NetQuery.Query.Entity

/-!
# Rows

The rows of a result keep the names of their columns. For some entities a reader may also expect a
column under an older name, its alias. Normalization adds the alias beside the column and changes
nothing else; an alias that is there already is left as it is.
-/

namespace NetQuery

/-- A row of a result: values by key. -/
abbrev Row := List (String × Json)

namespace Row

/-- The value under a key. -/
def get? (row : Row) (key : String) : Option Json :=
  (row.find? fun member => member.1 == key).map Prod.snd

/-- The row with a copy of the value under `source` under `target` as well, if there is a value and
the target is free. -/
def addAlias (row : Row) (source target : String) : Row :=
  match row.get? target, row.get? source with
  | none, some value => row ++ [(target, value)]
  | _, _ => row

end Row

namespace Entity

/-- The aliases of an entity: a column and its older name. -/
def aliases : Entity → List (String × String)
  | .devices =>
    [("device_id", "uid"), ("first_seen", "first_seen_time"), ("last_seen", "last_seen_time")]
  | .sweepResults | .deviceUpdates => [("available", "is_available")]
  | _ => []

/-- A row with the aliases of an entity added. -/
def normalizeRow (e : Entity) (row : Row) : Row :=
  e.aliases.foldl (fun row (source, target) => row.addAlias source target) row

/-- Rows with the aliases of an entity added. -/
def normalizeRows (e : Entity) (rows : List Row) : List Row := rows.map e.normalizeRow

end Entity

end NetQuery
