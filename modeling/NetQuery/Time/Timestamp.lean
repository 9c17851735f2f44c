import NetQuery.Number.Decimal
import NetQuery.Text.Blank
import NetQuery.Time.Date

/-!
# Timestamps

A timestamp is written as RFC 3339 asks: a date, a time of day and the offset from UTC at which both
are meant. Reading moves it to UTC, so that two texts that name one instant read as one value. An
offset is a whole number of minutes and less than a day, so that moving crosses midnight at most
once and never touches the seconds; a leap second is kept as second 60.
-/

namespace NetQuery.Time

/-- A date and a time of day in UTC. -/
structure Timestamp where
  /-- The date. -/
  date : Date
  /-- The minute of the day. -/
  minute : Nat
  /-- The second of the minute; 60 in a leap second. -/
  second : Nat
  /-- The nanosecond of the second. -/
  nano : Nat
deriving DecidableEq, Repr

namespace Timestamp

/-- Midnight at the start of a date. -/
def midnight (date : Date) : Timestamp := ⟨date, 0, 0, 0⟩

/-- Exactly `count` digits: their value and what follows. -/
def digits (count : Nat) (cs : List Char) : Option (Nat × List Char) :=
  let run := cs.take count
  if run.length = count && run.all Number.isDigit then some (Number.value run, cs.drop count)
  else none

/-- What follows the given character. -/
def mark (c : Char) : List Char → Option (List Char)
  | d :: cs => if d = c then some cs else none
  | [] => none

/-- What follows the sign between a date and a time: the letter T in either case, or one space. -/
def divider : List Char → Option (List Char)
  | 'T' :: cs | 't' :: cs | ' ' :: cs => some cs
  | _ => none

/-- The nanoseconds of an optional fraction of a second and what follows. Digits after the ninth are
dropped. -/
def fraction : List Char → Option (Nat × List Char)
  | '.' :: cs =>
    let run := cs.takeWhile Number.isDigit
    if run.isEmpty then none
    else some (Number.value ((run ++ List.replicate 9 '0').take 9), cs.dropWhile Number.isDigit)
  | cs => some (0, cs)

/-- The sign of an offset: a plus, a hyphen or a minus sign, and what follows. -/
def offsetSign : List Char → Option (Bool × List Char)
  | '+' :: cs => some (false, cs)
  | '-' :: cs | '−' :: cs => some (true, cs)
  | _ => none

/-- The offset from UTC in minutes, and what follows: the letter Z in either case, or a sign, hours
and minutes. -/
def offset : List Char → Option (Int × List Char)
  | 'Z' :: cs | 'z' :: cs => some (0, cs)
  | cs => do
    let (negative, cs) ← offsetSign cs
    let (hours, cs) ← digits 2 cs
    let cs ← mark ':' cs
    let (minutes, cs) ← digits 2 cs
    let total : Int := 60 * hours + minutes
    if hours < 24 && minutes < 60 then some (if negative then -total else total, cs) else none

/-- The UTC timestamp of a date and a minute of the day that are meant at an offset in minutes. -/
def atOffset (date : Date) (minute : Nat) (offset : Int) (second nano : Nat) : Timestamp :=
  let shifted : Int := minute - offset
  if shifted < 0 then ⟨date.pred, (shifted + 1440).toNat, second, nano⟩
  else if 1440 ≤ shifted then ⟨date.succ, (shifted - 1440).toNat, second, nano⟩
  else ⟨date, shifted.toNat, second, nano⟩

/-- Reads a timestamp that fills the whole text. -/
def ofChars? (cs : List Char) : Option Timestamp := do
  let (year, cs) ← digits 4 cs
  let cs ← mark '-' cs
  let (month, cs) ← digits 2 cs
  let cs ← mark '-' cs
  let (day, cs) ← digits 2 cs
  let cs ← divider cs
  let (hour, cs) ← digits 2 cs
  let cs ← mark ':' cs
  let (minute, cs) ← digits 2 cs
  let cs ← mark ':' cs
  let (second, cs) ← digits 2 cs
  let (nano, cs) ← fraction cs
  let (offset, cs) ← offset cs
  let date : Date := ⟨year, month, day⟩
  if cs.isEmpty && date.isValid && hour < 24 && minute < 60 && second ≤ 60 then
    some (atOffset date (60 * hour + minute) offset second nano)
  else none

/-- Reads a timestamp that fills the whole text. -/
def ofText? (s : String) : Option Timestamp := ofChars? s.toList

/-- The fraction of a second: nothing when it is zero, otherwise the fewest of three, six and nine
digits that are exact. -/
def fractionChars (nano : Nat) : List Char :=
  if nano = 0 then []
  else if nano % 1000000 = 0 then '.' :: Text.padded 3 (nano / 1000000)
  else if nano % 1000 = 0 then '.' :: Text.padded 6 (nano / 1000)
  else '.' :: Text.padded 9 nano

/-- The characters of the timestamp in its one standard form, which ends in `Z`. -/
def chars (t : Timestamp) : List Char :=
  t.date.chars ++ 'T' :: (Text.padded 2 (t.minute / 60) ++ ':' :: (Text.padded 2 (t.minute % 60)
    ++ ':' :: (Text.padded 2 t.second ++ (fractionChars t.nano ++ ['Z']))))

/-- The timestamp in its one standard form. -/
def text (t : Timestamp) : String := String.ofList t.chars

/-- The standard form of the timestamp that a text names, blanks around it apart. -/
def normalize? (s : String) : Option String := (ofText? (Text.trim s)).map text

end Timestamp

end NetQuery.Time
