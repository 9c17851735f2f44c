import NetQuery.Text.Basic

/-!
# Calendar dates

Dates are those of the proleptic Gregorian calendar, over the years -262143 to 262142. The day
before and the day after a date are found on the calendar itself; `dayNumber` counts the days from
the start of year zero, so that the two can be compared.
-/

namespace NetQuery.Time

/-- A leap year has a 29 February. -/
def isLeap (year : Int) : Bool :=
  year % 4 = 0 && (year % 100 ≠ 0 || year % 400 = 0)

/-- The number of days in a month; zero for a number that names no month. -/
def daysInMonth (year : Int) : (month : Nat) → Nat
  | 1 | 3 | 5 | 7 | 8 | 10 | 12 => 31
  | 4 | 6 | 9 | 11 => 30
  | 2 => if isLeap year then 29 else 28
  | _ => 0

/-- A year, a month from one and a day from one. -/
structure Date where
  /-- The year, which may be zero or negative. -/
  year : Int
  /-- The month, from one to twelve. -/
  month : Nat
  /-- The day of the month, from one. -/
  day : Nat
deriving DecidableEq, Repr

namespace Date

/-- The first year with dates. -/
def firstYear : Int := -262143

/-- The last year with dates. -/
def lastYear : Int := 262142

/-- The first date there is. -/
def first : Date := ⟨firstYear, 1, 1⟩

/-- The month and the day exist in the year. -/
def isValid (d : Date) : Bool :=
  1 ≤ d.month && d.month ≤ 12 && 1 ≤ d.day && d.day ≤ daysInMonth d.year d.month

/-- The date of a year, a month and a day, if there is one. -/
def ofParts? (year : Int) (month day : Nat) : Option Date :=
  let d : Date := ⟨year, month, day⟩
  if firstYear ≤ year && year ≤ lastYear && d.isValid then some d else none

/-- The day before, on the calendar. -/
def pred (d : Date) : Date :=
  if 1 < d.day then ⟨d.year, d.month, d.day - 1⟩
  else if 1 < d.month then ⟨d.year, d.month - 1, daysInMonth d.year (d.month - 1)⟩
  else ⟨d.year - 1, 12, 31⟩

/-- The day after, on the calendar. -/
def succ (d : Date) : Date :=
  if d.day < daysInMonth d.year d.month then ⟨d.year, d.month, d.day + 1⟩
  else if d.month < 12 then ⟨d.year, d.month + 1, 1⟩
  else ⟨d.year + 1, 1, 1⟩

/-- The day before; the first date stands for the day before itself. -/
def dayBefore (d : Date) : Date := if d = first then d else d.pred

/-- The number of days in the months before the given one. -/
def daysBeforeMonth (year : Int) : (month : Nat) → Nat
  | 0 => 0
  | month + 1 => daysBeforeMonth year month + daysInMonth year month

/-- The number of days from the start of year zero to the start of the given year. -/
def daysBeforeYear (year : Int) : Int :=
  365 * year + (year + 3) / 4 - (year + 99) / 100 + (year + 399) / 400

/-- The number of days from 1 January of year zero. -/
def dayNumber (d : Date) : Int :=
  daysBeforeYear d.year + daysBeforeMonth d.year d.month + (d.day : Int) - 1

/-- A year has at least four digits, and a sign exactly when it lies outside 0 to 9999. -/
def yearChars (year : Int) : List Char :=
  if year < 0 then '-' :: Text.padded 4 year.natAbs
  else if 9999 < year then '+' :: Text.padded 4 year.natAbs
  else Text.padded 4 year.natAbs

/-- The characters of the date as `YYYY-MM-DD`. -/
def chars (d : Date) : List Char :=
  yearChars d.year ++ '-' :: (Text.padded 2 d.month ++ '-' :: Text.padded 2 d.day)

/-- The date as `YYYY-MM-DD`. -/
def text (d : Date) : String := String.ofList d.chars

end Date

end NetQuery.Time
