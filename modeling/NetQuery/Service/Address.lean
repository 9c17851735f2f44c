import NetQuery.Text.Basic

/-!
# Network addresses

A service listens at an address: four octets or eight groups, and a port. The strict form is
`1.2.3.4:80` or `[1:2::3]:80`. Where that does not fit, the text before the last colon is taken for
a host in any numeric form. Addresses are written in their shortest form.
-/

namespace NetQuery

/-- An address to listen at. -/
inductive SocketAddress where
  /-- Four octets and a port. -/
  | v4 (octets : List Nat) (port : Nat)
  /-- Eight groups of sixteen bits, a scope, which is zero when none is meant, and a port. -/
  | v6 (groups : List Nat) (scope port : Nat)
deriving DecidableEq, Repr

namespace SocketAddress

/-- The value of a digit in a base of at most sixteen. -/
def digit? (base : Nat) (c : Char) : Option Nat :=
  let n? :=
    if '0' ≤ c && c ≤ '9' then some (c.toNat - '0'.toNat)
    else if 'a' ≤ c && c ≤ 'f' then some (c.toNat - 'a'.toNat + 10)
    else if 'A' ≤ c && c ≤ 'F' then some (c.toNat - 'A'.toNat + 10)
    else none
  n?.filter (· < base)

/-- The digits in a base at the start of a text, and what follows. -/
def digitRun (base : Nat) : List Char → List Nat × List Char
  | [] => ([], [])
  | c :: cs =>
    match digit? base c with
    | none => ([], c :: cs)
    | some n =>
      let (ns, rest) := digitRun base cs
      (n :: ns, rest)

/-- The value of digits in a base. -/
def valueIn (base : Nat) (digits : List Nat) : Nat := digits.foldl (fun n d => base * n + d) 0

/-- A number up to `bound` at the start of a text, and what follows. It takes all the digits there,
of which there may be at most `width`, and may start with a zero only if `zeros` allows it or it is
zero. -/
def number (base : Nat) (width : Option Nat) (zeros : Bool) (bound : Nat) (cs : List Char) :
    Option (Nat × List Char) :=
  let (digits, rest) := digitRun base cs
  let n := valueIn base digits
  if digits.isEmpty || width.any (· < digits.length)
      || (!zeros && digits.head? = some 0 && 1 < digits.length) || bound < n then none
  else some (n, rest)

/-- What follows a character. -/
def after (mark : Char) : List Char → Option (List Char)
  | c :: cs => if c = mark then some cs else none
  | [] => none

/-- `count` octets with points between them; `first` says that no point stands before the first. -/
def octets : (count : Nat) → (first : Bool) → List Char → Option (List Nat × List Char)
  | 0, _, cs => some ([], cs)
  | count + 1, first, cs => do
    let cs ← if first then some cs else after '.' cs
    let (n, cs) ← number 10 (some 3) false 255 cs
    let (ns, cs) ← octets count false cs
    some (n :: ns, cs)

/-- The two groups of four octets. -/
def octetGroups : List Nat → List Nat
  | [a, b, c, d] => [a * 256 + b, c * 256 + d]
  | _ => []

/-- Up to `room` groups with colons between them. The last two may be written as four octets, and
then the second part of the result says so. -/
def groups : (room : Nat) → (first : Bool) → List Char → List Nat × Bool × List Char
  | 0, _, cs => ([], false, cs)
  | room + 1, first, cs =>
    let start := if first then some cs else after ':' cs
    match if 0 < room then start.bind (octets 4 true) else none with
    | some (ns, rest) => (octetGroups ns, true, rest)
    | none =>
      match start.bind (number 16 (some 4) true 0xffff) with
      | none => ([], false, cs)
      | some (n, rest) =>
        let (ns, octets, rest) := groups room false rest
        (n :: ns, octets, rest)

/-- Eight groups, of which a run of zeros may be written as two colons. -/
def ipv6 (cs : List Char) : Option (List Nat × List Char) :=
  let (head, octets, cs) := groups 8 true cs
  if head.length = 8 then some (head, cs)
  else if octets then none
  else do
    let cs ← after ':' cs
    let cs ← after ':' cs
    let (tail, _, cs) := groups (7 - head.length) true cs
    some (head ++ List.replicate (8 - head.length - tail.length) 0 ++ tail, cs)

/-- An optional scope. -/
def scope (cs : List Char) : Nat × List Char :=
  match (after '%' cs).bind (number 10 none true 0xffffffff) with
  | some found => found
  | none => (0, cs)

/-- A port after a colon. -/
def port (cs : List Char) : Option (Nat × List Char) :=
  (after ':' cs).bind (number 10 none true 65535)

/-- The strict form with four octets. -/
def strictV4? (cs : List Char) : Option SocketAddress := do
  let (ns, cs) ← octets 4 true cs
  let (port, cs) ← port cs
  if cs.isEmpty then some (.v4 ns port) else none

/-- The strict form with eight groups. -/
def strictV6? (cs : List Char) : Option SocketAddress := do
  let cs ← after '[' cs
  let (ns, cs) ← ipv6 cs
  let (scope, cs) := scope cs
  let cs ← after ']' cs
  let (port, cs) ← port cs
  if cs.isEmpty then some (.v6 ns scope port) else none

/-- An unsigned number up to `bound` that fills a text, with an optional plus sign. -/
def unsigned? (bound : Nat) (cs : List Char) : Option Nat :=
  let cs := match cs with
    | '+' :: cs => cs
    | cs => cs
  match number 10 none true bound cs with
  | some (n, []) => some n
  | _ => none

/-- A number that fills a text: hexadecimal after `0x`, octal after a zero, and decimal
otherwise. -/
def anyBase? : List Char → Option Nat
  | '0' :: 'x' :: cs | '0' :: 'X' :: cs =>
    match number 16 none true 0xffffffff cs with
    | some (n, []) => some n
    | _ => none
  | '0' :: cs =>
    match number 8 none true 0xffffffff ('0' :: cs) with
    | some (n, []) => some n
    | _ => none
  | cs =>
    match number 10 none true 0xffffffff cs with
    | some (n, []) => some n
    | _ => none

/-- The octets of one to four numbers, of which the last stands for all the octets that are left. -/
def spread : List Nat → Option (List Nat)
  | [a] =>
    if a < 0x100000000 then some [a / 0x1000000, a / 0x10000 % 256, a / 256 % 256, a % 256]
    else none
  | [a, b] =>
    if a < 256 && b < 0x1000000 then some [a, b / 0x10000, b / 256 % 256, b % 256] else none
  | [a, b, c] => if a < 256 && b < 256 && c < 0x10000 then some [a, b, c / 256, c % 256] else none
  | [a, b, c, d] => if a < 256 && b < 256 && c < 256 && d < 256 then some [a, b, c, d] else none
  | _ => none

/-- A host in any numeric form, with a port. -/
def numericHost? (host : List Char) (port : Nat) : Option SocketAddress :=
  match ((Text.splitOn '.' host).mapM anyBase?).bind spread with
  | some octets => some (.v4 octets port)
  | none =>
    match ipv6 host with
    | none => none
    | some (ns, cs) =>
      let (scope, cs) := scope cs
      if cs.isEmpty then some (.v6 ns scope port) else none

/-- The text before and after the last colon. -/
def cutLast (cs : List Char) : Option (List Char × List Char) :=
  (Text.cut ':' cs.reverse).map fun (after, before) => (before.reverse, after.reverse)

/-- A host in any numeric form and a port, around the last colon. -/
def lenient? (cs : List Char) : Option SocketAddress := do
  let (host, port) ← cutLast cs
  let port ← unsigned? 65535 port
  numericHost? host port

/-- The address that a text names. -/
def ofText? (text : String) : Option SocketAddress :=
  let cs := text.toList
  (strictV4? cs).or ((strictV6? cs).or (lenient? cs))

/-- Octets with points between them. -/
def octetsText (octets : List Nat) : String := Text.join "." (octets.map toString)

/-- Groups in hexadecimal with colons between them. -/
def groupsText (groups : List Nat) : String :=
  Text.join ":" (groups.map fun n => String.ofList (Nat.toDigits 16 n))

/-- The number of zeros at the start of a list. -/
def leadingZeros (groups : List Nat) : Nat := (groups.takeWhile (· = 0)).length

/-- The first of the longest runs of zeros: where it starts, counted from `start`, and how long it
is. -/
def longestRun (start : Nat) : List Nat → Nat × Nat
  | [] => (start, 0)
  | n :: rest =>
    let here := leadingZeros (n :: rest)
    let later := longestRun (start + 1) rest
    if later.2 ≤ here then (start, here) else later

/-- Eight groups in their shortest form. An address that stands for four octets shows them. -/
def ipv6Text (groups : List Nat) : String :=
  match groups with
  | [0, 0, 0, 0, 0, 0xffff, x, y] =>
    "::ffff:" ++ octetsText [x / 256, x % 256, y / 256, y % 256]
  | groups =>
    let (start, length) := longestRun 0 groups
    if 1 < length then
      groupsText (groups.take start) ++ "::" ++ groupsText (groups.drop (start + length))
    else groupsText groups

/-- The text of an address. -/
def text : SocketAddress → String
  | .v4 octets port => Text.concat [octetsText octets, ":", toString port]
  | .v6 groups scope port =>
    let scopeText := if scope = 0 then "" else "%" ++ toString scope
    Text.concat ["[", ipv6Text groups, scopeText, "]:", toString port]

end SocketAddress

end NetQuery
