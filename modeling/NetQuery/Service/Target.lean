import NetQuery.Text.Basic

/-!
# Request targets

The target of a request is a path with a query string, or a whole URI with a scheme and an authority
before the path, or an authority alone. What follows a hash sign is not part of it. A resource is
found by the path only, but the whole target has to be well formed.
-/

namespace NetQuery.Target

/-- A character of a scheme. -/
def isSchemeChar (c : Char) : Bool := c.isAlphanum || "+-.~".toList.contains c

/-- A character of an authority that stands for itself. -/
def isNameChar (c : Char) : Bool := c.isAlphanum || "!$&'()*+,-.;=_~".toList.contains c

/-- A character of a path. Quotes, braces and all beyond ASCII stand in it as they are. -/
def isPathChar (c : Char) : Bool := 0x20 < c.toNat && !"#<>?`".toList.contains c

/-- A character of a query string: as in a path, but with no quote and no delete character, and with
the question mark and the grave accent. -/
def isQueryChar (c : Char) : Bool :=
  0x20 < c.toNat && c.toNat ≠ 0x7f && !"\"#<>".toList.contains c

/-- A character that ends an authority. -/
def endsAuthority (c : Char) : Bool := c = '/' || c = '?' || c = '#'

/-- What has been seen of an authority. -/
structure Authority where
  /-- The colons since the last at sign or closing bracket. -/
  colons : Nat := 0
  /-- There was an opening bracket. -/
  opened : Bool := false
  /-- There was a closing bracket. -/
  closed : Bool := false
  /-- There was a percent sign since the last at sign or closing bracket. -/
  percent : Bool := false
  /-- The last character was an at sign. -/
  afterAt : Bool := false
deriving DecidableEq, Repr

namespace Authority

/-- The most colons that may follow one another in an address. -/
def maxColons : Nat := 8

/-- An authority with one more character, if the character may stand there. What stands before an
at sign names a user, and what stands in brackets is an address: colons and percent signs are free
in both. -/
def next (a : Authority) (c : Char) : Option Authority :=
  let a := { a with afterAt := false }
  match c with
  | ':' => if a.colons < maxColons then some { a with colons := a.colons + 1 } else none
  | '[' => if a.percent || a.opened then none else some { a with opened := true }
  | ']' =>
    if a.opened && !a.closed then some { a with closed := true, colons := 0, percent := false }
    else none
  | '@' => some { a with colons := 0, percent := false, afterAt := true }
  | '%' => some { a with percent := true }
  | c => if isNameChar c then some a else none

/-- An authority may end here: the bracket is closed, and at most one colon comes before a port. -/
def mayEnd (a : Authority) : Bool :=
  a.opened == a.closed && a.colons ≤ 1 && !a.percent && !a.afterAt

end Authority

/-- A text is an authority. It may be empty. -/
def isAuthority (cs : List Char) : Bool :=
  (cs.foldlM Authority.next {}).any Authority.mayEnd

/-- The scheme at the start of a target, and what follows its two slashes. -/
def scheme? (cs : List Char) : Option (List Char × List Char) :=
  match cs.dropWhile isSchemeChar with
  | ':' :: '/' :: '/' :: rest => some (cs.takeWhile isSchemeChar, rest)
  | _ => none

/-- The path at the start of a text, if a query string is all that follows. -/
def leadingPath? (cs : List Char) : Option (List Char) :=
  let cs := cs.takeWhile (· ≠ '#')
  let path := cs.takeWhile (· ≠ '?')
  let query := (cs.dropWhile (· ≠ '?')).drop 1
  if path.all isPathChar && query.all isQueryChar then some path else none

/-- The longest scheme. -/
def maxScheme : Nat := 64

/-- The most bytes of a target. -/
def maxBytes : Nat := 65534

/-- The path in the characters of a target. It is empty if there is an authority alone. -/
def pathOf? : List Char → Option (List Char)
  | [] => none
  | '/' :: cs => leadingPath? ('/' :: cs)
  | cs =>
    match scheme? cs with
    | none => if isAuthority cs then some [] else none
    | some (scheme, rest) =>
      let authority := rest.takeWhile (!endsAuthority ·)
      if scheme.length ≤ maxScheme && !authority.isEmpty && isAuthority authority then
        leadingPath? (rest.dropWhile (!endsAuthority ·))
      else none

/-- The path of a target, if the target is well formed. -/
def path? (target : String) : Option String :=
  if target.utf8ByteSize ≤ maxBytes then (pathOf? target.toList).map String.ofList else none

end NetQuery.Target
