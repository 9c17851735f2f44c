import NetQuery.Proofs.Instants

/-!
# Today and yesterday

A date keyword stands for the day of the clock or for the day before it, and is written as a text
for an engine that has no dates of its own. There dates are compared as texts. So the text has to
tell the date, and among years of four digits an earlier date has to have a lesser text. The day
before is told by the order of dates alone: no date lies between it and the day of the clock.
-/

namespace NetQuery

namespace Time

/-! ## Digits in order -/

theorem digitValue_lt_iff {c d : Char} (hc : Number.isDigit c) (hd : Number.isDigit d) :
    (c < d ↔ Number.digitValue c < Number.digitValue d) ∧
      (c = d ↔ Number.digitValue c = Number.digitValue d) := by
  have hcbounds := Lexer.toNat_bounds_of_isDigit hc
  have hdbounds := Lexer.toNat_bounds_of_isDigit hd
  have hlt : c < d ↔ c.toNat < d.toNat := Iff.rfl
  have heq : c = d ↔ c.toNat = d.toNat := Char.toNat_inj.symm
  have hvalue : ∀ e : Char, Number.digitValue e = e.toNat - 48 := fun _ => rfl
  rw [hlt, heq, hvalue, hvalue]
  omega

/-- A leading digit decides, and then the digits after it. -/
theorem lead_lt_iff {unit m n x y : Nat} (hx : x < unit) (hy : y < unit) :
    (unit * m + x < unit * n + y ↔ m < n ∨ (m = n ∧ x < y)) ∧
      (unit * m + x = unit * n + y ↔ m = n ∧ x = y) := by
  rcases Nat.lt_trichotomy m n with hlt | rfl | hlt
  · have hle := Nat.mul_le_mul_left unit (Nat.succ_le_of_lt hlt)
    rw [Nat.mul_succ] at hle
    omega
  · omega
  · have hle := Nat.mul_le_mul_left unit (Nat.succ_le_of_lt hlt)
    rw [Nat.mul_succ] at hle
    omega

/-- Numbers of one width are ordered like their digits, and then by what follows. -/
theorem digits_append_lt_iff {run run' : List Char} (hlength : run.length = run'.length)
    (hrun : ∀ c ∈ run, Number.isDigit c) (hrun' : ∀ c ∈ run', Number.isDigit c)
    (rest rest' : List Char) : run ++ rest < run' ++ rest' ↔
      Number.value run < Number.value run' ∨
        (Number.value run = Number.value run' ∧ rest < rest') := by
  induction run generalizing run' with
  | nil =>
    obtain rfl := List.length_eq_zero_iff.1 hlength.symm
    simp
  | cons c run ih =>
    cases run' with
    | nil => cases hlength
    | cons d run' =>
      obtain ⟨hc, hrun⟩ := List.forall_mem_cons.1 hrun
      obtain ⟨hd, hrun'⟩ := List.forall_mem_cons.1 hrun'
      have hlength := Nat.succ.inj hlength
      have hvalue : ∀ (e : Char) (es : List Char), Number.value (e :: es) =
          10 ^ es.length * Number.digitValue e + Number.value es := fun e es => by
        rw [← List.singleton_append, Number.value_append]
        simp [Number.value]
      have hsmall := Number.value_lt hrun
      have hsmall' := Number.value_lt hrun'
      obtain ⟨hlt, heq⟩ := digitValue_lt_iff hc hd
      rw [← hlength] at hsmall'
      obtain ⟨hlead, hlead'⟩ := @lead_lt_iff _ (Number.digitValue c) (Number.digitValue d) _ _
        hsmall hsmall'
      rw [List.cons_append, List.cons_append, List.cons_lt_cons_iff, ih hlength hrun hrun', hlt,
        heq, hvalue, hvalue, ← hlength, hlead, hlead']
      rw [and_or_left, or_assoc, and_assoc]

theorem Digits.append_lt_iff {width m n : Nat} {run run' : List Char} (hm : Digits width run m)
    (hn : Digits width run' n) (rest rest' : List Char) :
    run ++ rest < run' ++ rest' ↔ m < n ∨ (m = n ∧ rest < rest') := by
  rw [digits_append_lt_iff (hm.length.trans hn.length.symm) hm.digits hn.digits, hm.value,
    hn.value]

namespace Date

/-! ## Reading a date -/

/-- The sign of a year, and what follows it. -/
def signed : List Char → Int × List Char
  | '-' :: cs => (-1, cs)
  | '+' :: cs => (1, cs)
  | cs => (1, cs)

/-- The date that a text names: a year that may have a sign, a month and a day, with a hyphen after
the year and after the month. -/
def ofText? (s : String) : Option Date :=
  let (sign, cs) := signed s.toList
  match Text.splitOn '-' cs with
  | [year, month, day] =>
    if (year ++ month ++ day).all Number.isDigit then
      some ⟨sign * Number.value year, Number.value month, Number.value day⟩
    else none
  | _ => none

/-- A date of the calendar, within the years that there are dates for. -/
structure IsKnown (d : Date) : Prop where
  /-- The month and the day exist. -/
  valid : d.isValid
  /-- The year is not before the first one. -/
  first_le : firstYear ≤ d.year
  /-- The year is not after the last one. -/
  le_last : d.year ≤ lastYear

variable {d e : Date}

theorem hyphen_not_mem_padded (width n : Nat) : '-' ∉ Text.padded width n := fun h =>
  absurd (Text.isDigit_of_mem_padded h) (by decide)

/-- The hyphens tell the parts of a date. -/
theorem splitOn_parts (year month day : Nat) :
    Text.splitOn '-' (Text.padded 4 year ++
        '-' :: (Text.padded 2 month ++ '-' :: Text.padded 2 day)) =
      [Text.padded 4 year, Text.padded 2 month, Text.padded 2 day] := by
  rw [Text.splitOn_append (hyphen_not_mem_padded 4 year),
    Text.splitOn_append (hyphen_not_mem_padded 2 month),
    Text.splitOn_of_not_mem (hyphen_not_mem_padded 2 day)]

/-- The sign of a year is told from its digits. -/
theorem exists_signed_yearChars (year : Int) (rest : List Char) : ∃ sign : Int,
    signed (yearChars year ++ rest) = (sign, Text.padded 4 year.natAbs ++ rest) ∧
      sign * year.natAbs = year := by
  obtain ⟨hminus, hplus⟩ := head?_yearChars year rest
  rcases lt_or_ge year 0 with hneg | hnonneg
  · refine ⟨-1, ?_, by omega⟩
    rw [yearChars, if_pos hneg]
    rfl
  · refine ⟨1, ?_, by omega⟩
    rcases lt_or_ge 9999 year with hlarge | hsmall
    · rw [yearChars, if_neg (by omega), if_pos hlarge]
      rfl
    · have hchars : yearChars year = Text.padded 4 year.natAbs := by
        rw [yearChars, if_neg (by omega), if_neg (by omega)]
      rw [hchars] at hminus hplus ⊢
      unfold signed
      split
      next cs heq => exact absurd (hminus.1 (by rw [heq]; rfl)) (by omega)
      next cs heq => exact absurd (hplus.1 (by rw [heq]; rfl)) (by omega)
      next => rfl

/-- The text of a date names that date. -/
theorem ofText?_text (d : Date) : ofText? d.text = some d := by
  obtain ⟨sign, hsigned, hyear⟩ := exists_signed_yearChars d.year
    ('-' :: (Text.padded 2 d.month ++ '-' :: Text.padded 2 d.day))
  have hall : ∀ width n, (Text.padded width n).all Number.isDigit := fun width n =>
    List.all_eq_true.2 fun _ => Text.isDigit_of_mem_padded
  simp only [ofText?, text, String.toList_ofList, chars, hsigned, splitOn_parts, List.all_append,
    hall, Bool.and_self, if_true, Text.value_padded, hyear]

theorem text_injective : Function.Injective text := fun d e h =>
  Option.some.inj (by rw [← ofText?_text d, h, ofText?_text e])

/-! ## The order of texts -/

/-- Without a sign, the text is the digits of the parts. -/
theorem chars_of_four_digits (hlow : 0 ≤ d.year) (hhigh : d.year ≤ 9999) :
    d.chars = Text.padded 4 d.year.natAbs ++
      '-' :: (Text.padded 2 d.month ++ '-' :: Text.padded 2 d.day) := by
  rw [chars, yearChars, if_neg (by omega), if_neg (by omega)]

theorem digits_year (hlow : 0 ≤ d.year) (hhigh : d.year ≤ 9999) :
    Digits 4 (Text.padded 4 d.year.natAbs) d.year.natAbs :=
  digits_padded (by decide) (by omega)

/-- The text names the date. In years of four digits it is `YYYY-MM-DD`: four digits, two and two,
with hyphens between them. -/
structure WrittenAs (d : Date) (s : String) : Prop where
  /-- Read as a date, it is this one. -/
  reads : ofText? s = some d
  /-- Without a sign, the width of its parts is fixed. -/
  form : d.isValid → 0 ≤ d.year → d.year ≤ 9999 → ∃ year month day,
    s.toList = year ++ '-' :: (month ++ '-' :: day) ∧ Digits 4 year d.year.natAbs ∧
      Digits 2 month d.month ∧ Digits 2 day d.day

theorem writtenAs_text (d : Date) : d.WrittenAs d.text where
  reads := ofText?_text d
  form h hlow hhigh := by
    rw [text, String.toList_ofList, chars_of_four_digits hlow hhigh]
    exact ⟨_, _, _, rfl, digits_year hlow hhigh, digits_month h, digits_day h⟩

theorem length_text (h : d.isValid) (hlow : 0 ≤ d.year) (hhigh : d.year ≤ 9999) :
    d.text.length = 10 := by
  have hyear := (digits_year hlow hhigh).length
  have hmonth := (digits_month h).length
  have hday := (digits_day h).length
  rw [text, String.length_ofList, chars_of_four_digits hlow hhigh]
  simp only [List.length_append, List.length_cons, hyear, hmonth, hday]

/-- Among years of four digits, texts are ordered like dates. -/
theorem text_lt_iff (hd : d.isValid) (he : e.isValid) (hdlow : 0 ≤ d.year) (hdhigh : d.year ≤ 9999)
    (helow : 0 ≤ e.year) (hehigh : e.year ≤ 9999) : d.text < e.text ↔ d.Before e := by
  have hcons : ∀ rest rest' : List Char, '-' :: rest < '-' :: rest' ↔ rest < rest' := by
    intro rest rest'
    rw [List.cons_lt_cons_iff]
    simp
  have hday := (digits_day hd).append_lt_iff (digits_day he) [] []
  simp only [List.append_nil] at hday
  rw [String.lt_iff_toList_lt, text, text, String.toList_ofList, String.toList_ofList,
    chars_of_four_digits hdlow hdhigh, chars_of_four_digits helow hehigh,
    (digits_year hdlow hdhigh).append_lt_iff (digits_year helow hehigh), hcons,
    (digits_month hd).append_lt_iff (digits_month he), hcons, hday, Before]
  simp only [List.lt_irrefl, and_false, or_false]
  omega

theorem before_iff (hd : d.isValid) (he : e.isValid) : d.Before e ↔ d.dayNumber < e.dayNumber := by
  refine ⟨dayNumber_lt_of_before hd he, fun hlt => ?_⟩
  rcases eq_or_before d e with rfl | hbefore | hbefore
  · omega
  · exact hbefore
  · have := dayNumber_lt_of_before he hd hbefore
    omega

/-! ## The day before -/

/-- `d` is the day before `e`: a date of the calendar whose number is one less. Only the first date
stands for the day before itself. -/
def IsDayBefore (d e : Date) : Prop :=
  (e = first → d = e) ∧ (e ≠ first → d.isValid ∧ d.dayNumber = e.dayNumber - 1)

theorem isDayBefore_dayBefore (h : d.isValid) : d.dayBefore.IsDayBefore d := by
  unfold dayBefore
  split
  next hfirst => exact ⟨fun _ => rfl, fun hne => absurd hfirst hne⟩
  next hne => exact ⟨fun hfirst => absurd hfirst hne, fun _ => pred_spec h⟩

/-- The day before a date is a date, and its number is one less. -/
theorem dayBefore_spec (h : d.IsKnown) (hfirst : d ≠ first) :
    d.dayBefore.IsKnown ∧ d.dayBefore.dayNumber = d.dayNumber - 1 := by
  obtain ⟨hvalid, hnumber⟩ := pred_spec h.valid
  have hyear : firstYear ≤ d.pred.year ∧ d.pred.year ≤ d.year := by
    have hlow := h.first_le
    obtain ⟨hmonth, -, hday, -⟩ := isValid_iff.1 h.valid
    unfold pred
    split
    next => exact ⟨hlow, le_rfl⟩
    next hone =>
      split
      next => exact ⟨hlow, le_rfl⟩
      next hjanuary =>
        -- The first of January of the first year is the first date.
        have hne : d.year ≠ firstYear := by
          obtain ⟨year, month, day⟩ := d
          rintro rfl
          simp only at hmonth hday hone hjanuary
          exact hfirst (by rw [first, show month = 1 by omega, show day = 1 by omega])
        simp only
        omega
  rw [dayBefore, if_neg hfirst]
  exact ⟨⟨hvalid, hyear.1, hyear.2.trans h.le_last⟩, hnumber⟩

/-- No date lies between a date and the day before it. -/
theorem before_iff_dayBefore (h : d.IsKnown) (hfirst : d ≠ first) (he : e.isValid) :
    e.Before d ↔ e = d.dayBefore ∨ e.Before d.dayBefore := by
  obtain ⟨hbefore, hnumber⟩ := dayBefore_spec h hfirst
  rw [before_iff he h.valid, before_iff he hbefore.valid]
  constructor
  · intro hlt
    rcases Int.lt_or_eq_of_le (show e.dayNumber ≤ d.dayBefore.dayNumber by omega) with hlt | heq
    · exact Or.inr hlt
    · exact Or.inl (dayNumber_injective he hbefore.valid heq)
  · rintro (rfl | hlt)
    · omega
    · omega

end Date

end Time

namespace DateKeyword

open Time (Date Timestamp)

/-- The day that a keyword stands for: that of the clock, or the day before it. A clock that shows
no day of the calendar has no day before. -/
inductive Means (now : Timestamp) : DateKeyword → Date → Prop where
  | today : Means now .today now.date
  | yesterday {d : Date} (h : now.date.isValid → d.IsDayBefore now.date) : Means now .yesterday d

theorem means_date (word : DateKeyword) (now : Timestamp) : word.Means now (word.date now) := by
  cases word with
  | today => exact .today
  | yesterday => exact .yesterday Date.isDayBefore_dayBefore

/-- The text of a keyword tells its date. `TODAY` is the date of the clock. `YESTERDAY` is the date
whose number is one less and after which no other date comes before that of the clock; only the
first date stands for the day before itself. Different dates have different texts, and among years
of four digits a text has ten characters, and texts are ordered like dates. -/
theorem dateText_days :
    (∀ now : Timestamp, now.IsValid → now.date.IsKnown →
      Date.ofText? (today.dateText now) = some now.date ∧
      now.date.dayNumber = now.instant.minute / 1440 ∧
      ∃ d, Date.ofText? (yesterday.dateText now) = some d ∧ d.IsKnown ∧
        (now.date = .first → d = now.date) ∧
        (now.date ≠ .first → d.dayNumber = now.date.dayNumber - 1 ∧
          ∀ e : Date, e.isValid → (e.Before now.date ↔ e = d ∨ e.Before d))) ∧
    (∀ (k k' : DateKeyword) (now now' : Timestamp), k.date now ≠ k'.date now' →
      k.dateText now ≠ k'.dateText now') ∧
    ∀ (k k' : DateKeyword) (now now' : Timestamp),
      (k.date now).isValid → 0 ≤ (k.date now).year → (k.date now).year ≤ 9999 →
      (k'.date now').isValid → 0 ≤ (k'.date now').year → (k'.date now').year ≤ 9999 →
        (k.dateText now).length = 10 ∧
        (k.dateText now < k'.dateText now' ↔ (k.date now).Before (k'.date now')) := by
  refine ⟨fun now hnow hknown => ⟨Date.ofText?_text now.date, ?_, now.date.dayBefore,
    Date.ofText?_text now.date.dayBefore, ?_⟩, fun k k' now now' hne htext => ?_,
    fun k k' now now' hd hdlow hdhigh he helow hehigh => ?_⟩
  · have hminute := hnow.minute
    simp only [Timestamp.instant]
    omega
  · by_cases hfirst : now.date = .first
    · have hsame : now.date.dayBefore = now.date := if_pos hfirst
      rw [hsame]
      exact ⟨hknown, fun _ => rfl, fun hne => absurd hfirst hne⟩
    · obtain ⟨hbefore, hnumber⟩ := Date.dayBefore_spec hknown hfirst
      exact ⟨hbefore, fun heq => absurd heq hfirst, fun _ => ⟨hnumber, fun e he =>
        Date.before_iff_dayBefore hknown hfirst he⟩⟩
  · exact hne (Date.text_injective htext)
  · exact ⟨Date.length_text hd hdlow hdhigh, Date.text_lt_iff hd he hdlow hdhigh helow hehigh⟩

/-- The day after a leap day, the first date there is, and the turn of a year. -/
theorem dateText_days_leap :
    (yesterday.dateText ⟨⟨2024, 3, 1⟩, 0, 0, 0⟩ = "2024-02-29" ∧
      ∃ d, Date.ofText? "2024-02-29" = some d ∧
        d.dayNumber = (⟨2024, 3, 1⟩ : Date).dayNumber - 1) ∧
    (yesterday.dateText (.midnight .first) = "-262143-01-01" ∧
      Date.ofText? "-262143-01-01" = some .first) ∧
    today.dateText ⟨⟨2024, 1, 1⟩, 5, 0, 0⟩ ≠ yesterday.dateText ⟨⟨2024, 1, 1⟩, 5, 0, 0⟩ ∧
    (yesterday.dateText ⟨⟨2024, 1, 1⟩, 5, 0, 0⟩ < today.dateText ⟨⟨2024, 1, 1⟩, 5, 0, 0⟩ ↔
      (⟨2023, 12, 31⟩ : Date).Before ⟨2024, 1, 1⟩) := by
  have hleap : yesterday.dateText ⟨⟨2024, 3, 1⟩, 0, 0, 0⟩ = "2024-02-29" := by decide +kernel
  have hfirst : yesterday.dateText (.midnight .first) = "-262143-01-01" := by decide +kernel
  obtain ⟨-, -, d, hd, -, -, hbefore⟩ := dateText_days.1 ⟨⟨2024, 3, 1⟩, 0, 0, 0⟩
    ⟨by decide, by decide, by decide, by decide⟩ ⟨by decide, by decide, by decide⟩
  obtain ⟨-, -, e, he, -, hsame, -⟩ := dateText_days.1 (.midnight .first)
    ⟨by decide, by decide, by decide, by decide⟩ ⟨by decide, by decide, by decide⟩
  rw [hleap] at hd
  rw [hfirst, hsame rfl] at he
  refine ⟨⟨hleap, d, hd, (hbefore (by decide)).1⟩, ⟨hfirst, he⟩,
    dateText_days.2.1 today yesterday _ _ (by decide), ?_⟩
  exact (dateText_days.2.2 yesterday today ⟨⟨2024, 1, 1⟩, 5, 0, 0⟩ ⟨⟨2024, 1, 1⟩, 5, 0, 0⟩
    (by decide) (by decide) (by decide) (by decide) (by decide) (by decide)).2

end DateKeyword

end NetQuery
