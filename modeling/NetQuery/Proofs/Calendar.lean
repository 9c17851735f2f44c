import Mathlib
import NetQuery.Time.Date

/-!
# Counting days

The calendar steps from a day to the next by its own rules: months of different lengths, and leap
years by three divisions. Day numbers count. Here the two are shown to agree: the day after a date
has the next number, the day before it the number before, and no two dates share a number. So
whatever is said of dates by arithmetic on their numbers holds of the dates.
-/

namespace NetQuery.Time

theorem daysInMonth_pos (year : Int) {month : Nat} (hlow : 1 ≤ month) (hhigh : month ≤ 12) :
    1 ≤ daysInMonth year month := by
  cases hleap : isLeap year <;> interval_cases month <;> simp [daysInMonth, hleap]

theorem daysInMonth_le (year : Int) (month : Nat) : daysInMonth year month ≤ 31 := by
  unfold daysInMonth
  split
  case h_12 => split <;> decide
  all_goals decide

namespace Date

variable {d e : Date}

theorem isValid_iff : d.isValid ↔
    1 ≤ d.month ∧ d.month ≤ 12 ∧ 1 ≤ d.day ∧ d.day ≤ daysInMonth d.year d.month := by
  simp [isValid, and_assoc]

/-! ## Years and months -/

theorem daysBeforeMonth_year (year : Int) :
    daysBeforeMonth year 13 = if isLeap year then 366 else 365 := by
  simp only [daysBeforeMonth, daysInMonth]
  split <;> rfl

/-- The closed form counts a day for each day of the year. -/
theorem daysBeforeYear_succ (year : Int) :
    daysBeforeYear (year + 1) = daysBeforeYear year + daysBeforeMonth year 13 := by
  rw [daysBeforeMonth_year]
  simp only [daysBeforeYear, isLeap, Bool.and_eq_true, Bool.or_eq_true, decide_eq_true_eq]
  split <;> push_cast <;> omega

theorem daysBeforeYear_mono : Monotone daysBeforeYear := by
  apply monotone_int_of_le_succ
  intro year
  rw [daysBeforeYear_succ]
  omega

theorem daysBeforeMonth_mono (year : Int) : Monotone (daysBeforeMonth year) := by
  apply monotone_nat_of_le_succ
  intro month
  rw [daysBeforeMonth]
  omega

/-- A valid date lies before the next month. -/
theorem day_le (h : d.isValid) :
    daysBeforeMonth d.year d.month + d.day ≤ daysBeforeMonth d.year (d.month + 1) := by
  have hday := (isValid_iff.1 h).2.2.2
  rw [daysBeforeMonth]
  omega

/-- The number of a date tells its year. -/
theorem daysBeforeYear_le_iff (h : d.isValid) (year : Int) :
    daysBeforeYear year ≤ d.dayNumber ↔ year ≤ d.year := by
  obtain ⟨-, hmonth, hday, -⟩ := isValid_iff.1 h
  constructor
  · intro hle
    by_contra hyear
    have hnext : daysBeforeYear (d.year + 1) ≤ daysBeforeYear year :=
      daysBeforeYear_mono (by omega)
    have hmonths : daysBeforeMonth d.year (d.month + 1) ≤ daysBeforeMonth d.year 13 :=
      daysBeforeMonth_mono d.year (by omega)
    have hwithin := day_le h
    rw [daysBeforeYear_succ] at hnext
    rw [dayNumber] at hle
    omega
  · intro hyear
    have hbefore : daysBeforeYear year ≤ daysBeforeYear d.year := daysBeforeYear_mono hyear
    rw [dayNumber]
    omega

/-! ## The day after and the day before -/

/-- The day after has the next number. -/
theorem succ_spec (h : d.isValid) : d.succ.isValid ∧ d.succ.dayNumber = d.dayNumber + 1 := by
  obtain ⟨hlow, hhigh, hday, hlast⟩ := isValid_iff.1 h
  unfold succ
  split
  next hwithin =>
    refine ⟨isValid_iff.2 ⟨hlow, hhigh, by simp, hwithin⟩, ?_⟩
    simp only [dayNumber]
    omega
  next hwithin =>
    split
    next hmonth =>
      refine ⟨isValid_iff.2 ⟨by simp, hmonth, le_rfl, daysInMonth_pos _ (by simp) hmonth⟩, ?_⟩
      simp only [dayNumber, daysBeforeMonth]
      omega
    next hmonth =>
      have hdecember : d.month = 12 := by omega
      refine ⟨rfl, ?_⟩
      rw [hdecember] at hlast hwithin
      have hyear := daysBeforeYear_succ d.year
      rw [daysBeforeMonth] at hyear
      have hjanuary : daysBeforeMonth (d.year + 1) 1 = 0 := rfl
      simp only [dayNumber, hdecember, hjanuary]
      omega

/-- The day before has the number before. -/
theorem pred_spec (h : d.isValid) : d.pred.isValid ∧ d.pred.dayNumber = d.dayNumber - 1 := by
  obtain ⟨hlow, hhigh, hday, hlast⟩ := isValid_iff.1 h
  unfold pred
  split
  next hwithin =>
    refine ⟨isValid_iff.2 ⟨hlow, hhigh, by simp only; omega, by simp only; omega⟩, ?_⟩
    simp only [dayNumber]
    omega
  next hwithin =>
    split
    next hmonth =>
      obtain ⟨month, hmonth⟩ : ∃ month, d.month = month + 1 := ⟨d.month - 1, by omega⟩
      simp only [hmonth, Nat.add_sub_cancel]
      have hpos : 1 ≤ daysInMonth d.year month := daysInMonth_pos d.year (by omega) (by omega)
      refine ⟨isValid_iff.2 ⟨by simp only; omega, by simp only; omega, hpos, le_rfl⟩, ?_⟩
      simp only [dayNumber, hmonth, daysBeforeMonth]
      omega
    next hmonth =>
      have hjanuary : d.month = 1 := by omega
      refine ⟨rfl, ?_⟩
      have hyear := daysBeforeYear_succ (d.year - 1)
      rw [daysBeforeMonth, Int.sub_add_cancel] at hyear
      have hdecember : daysInMonth (d.year - 1) 12 = 31 := rfl
      have hzero : daysBeforeMonth d.year 1 = 0 := rfl
      simp only [dayNumber, hjanuary, hzero]
      omega

/-! ## The order of dates -/

/-- A date comes before another: by year, then by month, then by day. -/
def Before (d e : Date) : Prop :=
  d.year < e.year ∨
    (d.year = e.year ∧ (d.month < e.month ∨ (d.month = e.month ∧ d.day < e.day)))

theorem dayNumber_lt_of_before (hd : d.isValid) (he : e.isValid) (h : d.Before e) :
    d.dayNumber < e.dayNumber := by
  obtain ⟨-, -, hday, -⟩ := isValid_iff.1 he
  rcases h with hyear | ⟨hyear, hmonth | ⟨hmonth, hday⟩⟩
  · have hlate := (daysBeforeYear_le_iff he (d.year + 1)).2 hyear
    have hearly := (daysBeforeYear_le_iff hd (d.year + 1)).not.2 (by omega)
    omega
  · have hmonths : daysBeforeMonth d.year (d.month + 1) ≤ daysBeforeMonth d.year e.month :=
      daysBeforeMonth_mono d.year hmonth
    have hwithin := day_le hd
    rw [dayNumber, dayNumber, ← hyear]
    omega
  · rw [dayNumber, dayNumber, hyear, hmonth]
    omega

theorem eq_or_before (d e : Date) : d = e ∨ d.Before e ∨ e.Before d := by
  obtain ⟨year, month, day⟩ := d
  obtain ⟨year', month', day'⟩ := e
  simp only [Date.mk.injEq, Before]
  omega

/-- No two dates share a number. -/
theorem dayNumber_injective (hd : d.isValid) (he : e.isValid) (h : d.dayNumber = e.dayNumber) :
    d = e := by
  rcases eq_or_before d e with heq | hbefore | hbefore
  · exact heq
  · have := dayNumber_lt_of_before hd he hbefore
    omega
  · have := dayNumber_lt_of_before he hd hbefore
    omega

end Date

end NetQuery.Time
