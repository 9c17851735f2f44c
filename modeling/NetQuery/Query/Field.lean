import NetQuery.Text.Basic
import NetQuery.Text.Blank

/-!
# Fields

A field is kept as the text that names it: a column, or a function applied to columns. `FieldRef` is
the same field taken apart again.
-/

namespace NetQuery

/-- A field taken apart. -/
structure FieldRef where
  /-- The function, if there is one. -/
  function : Option String
  /-- The arguments of the function; without a function, the field itself. -/
  args : List String
deriving DecidableEq, Repr

namespace FieldRef

/-- The arguments between the parentheses of a call: the parts between commas, without the blanks
around them and without the empty ones. -/
def arguments (inner : List Char) : List String :=
  (((Text.splitOn ',' inner).map Text.trimChars).filter fun arg => !arg.isEmpty).map String.ofList

/-- A field is a call when it has an opening parenthesis and its last character after that is a
closing one. Any other text is a column. -/
def ofText (field : String) : FieldRef :=
  match Text.cut '(' field.toList with
  | some (name, rest) =>
    match Text.dropFinal ')' rest with
    | some inner => ⟨some (String.ofList (Text.trimChars name)), arguments inner⟩
    | none => ⟨none, [field]⟩
  | none => ⟨none, [field]⟩

/-- The column that a field reads, before any function is applied. -/
def column (f : FieldRef) : String := f.args.head?.getD ""

/-- The text of a call, as a query keeps it: the function in small letters and the arguments as they
were written. -/
def call (function : String) (args : List String) : String :=
  Text.lower function ++ "(" ++ Text.join ", " args ++ ")"

end FieldRef

end NetQuery
