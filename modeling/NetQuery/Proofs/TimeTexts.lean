import NetQuery.Proofs.Calendar
import NetQuery.Proofs.Timestamps

/-!
# What is told by the text of a timestamp

The standard form of a timestamp has parts of a fixed width, except for the year, which has a sign
when four digits are not enough for it, and the fraction of the second, which takes as few digits as
it can. Even so nothing is lost: each part can be told from the text, and so the text tells the
timestamp.
-/

namespace NetQuery

/-! ## Runs of digits -/

namespace Number

theorem value_snoc (digits : List Char) (d : Char) :
    value (digits ++ [d]) = 10 * value digits + digitValue d := by
  simp [value]

theorem value_append (cs ds : List Char) :
    value (cs ++ ds) = 10 ^ ds.length * value cs + value ds := by
  induction ds using List.reverseRecOn with
  | nil => simp [value]
  | append_singleton ds d ih =>
    rw [← List.append_assoc, value_snoc, value_snoc, ih, List.length_append, List.length_singleton,
      pow_succ]
    ring

theorem value_replicate_zero (n : Nat) : value (List.replicate n '0') = 0 := by
  have h : value (List.replicate n '0') = 10 ^ n * 0 := Nat.ofDigitChars_replicate_zero
  exact h.trans (Nat.mul_zero _)

theorem value_lt {digits : List Char} (h : ∀ c ∈ digits, isDigit c) :
    value digits < 10 ^ digits.length := by
  induction digits using List.reverseRecOn with
  | nil => simp [value]
  | append_singleton digits d ih =>
    have ih := ih fun c hc => h c (List.mem_append_left _ hc)
    have hbounds := Lexer.toNat_bounds_of_isDigit (h d (by simp))
    have hdigit : digitValue d = d.toNat - 48 := rfl
    rw [value_snoc, List.length_append, List.length_singleton, pow_succ]
    omega

end Number

namespace Text

theorem isBlank_of_isDigit {c : Char} (h : Number.isDigit c) : isBlank c = false :=
  Lexer.isBlank_eq_false_of_continuesWord (Lexer.continuesWord_of_isDigit h)

theorem isDigit_of_mem_padded {width n : Nat} {c : Char} (h : c ∈ padded width n) :
    Number.isDigit c := by
  rcases List.mem_append.1 h with h | h
  · rw [(List.mem_replicate.1 h).2]
    decide
  · exact Nat.isDigit_of_mem_toDigits (by decide) (by decide) h

theorem value_padded (width n : Nat) : Number.value (padded width n) = n := by
  have hdigits : Number.value (Nat.toDigits 10 n) = n := Nat.ofDigitChars_ten_toDigits
  rw [padded, Number.value_append, Number.value_replicate_zero, hdigits, Nat.mul_zero, Nat.zero_add]

theorem length_padded {width n : Nat} (hwidth : 0 < width) (h : n < 10 ^ width) :
    (padded width n).length = width := by
  have hlength := (Nat.length_toDigits_le_iff (by decide) hwidth).2 h
  simp only [padded, List.length_append, List.length_replicate]
  omega

end Text

namespace Time

theorem digits_padded {width n : Nat} (hwidth : 0 < width) (h : n < 10 ^ width) :
    Digits width (Text.padded width n) n :=
  ⟨Text.length_padded hwidth h, fun _ => Text.isDigit_of_mem_padded, Text.value_padded width n⟩

/-- A number of a fixed width is told apart from what follows by its width. -/
theorem Digits.append_inj {width m n : Nat} {run run' rest rest' : List Char}
    (hm : Digits width run m) (hn : Digits width run' n) (h : run ++ rest = run' ++ rest') :
    m = n ∧ rest = rest' := by
  obtain ⟨rfl, hrest⟩ := List.append_inj h (hm.length.trans hn.length.symm)
  exact ⟨hm.value.symm.trans hn.value, hrest⟩

/-- A number of any width is told apart from what follows by the hyphen between them. -/
theorem padded_hyphen_inj {width m n : Nat} {rest rest' : List Char}
    (h : Text.padded width m ++ '-' :: rest = Text.padded width n ++ '-' :: rest') :
    m = n ∧ rest = rest' := by
  have hstop : ∀ (k : Nat) (tail : List Char),
      (Text.padded width k ++ '-' :: tail).takeWhile Number.isDigit = Text.padded width k := by
    intro k tail
    refine Text.takeWhile_append_of_stop (fun _ => Text.isDigit_of_mem_padded) ?_
    simp [Number.isDigit]
  have hrun : Text.padded width m = Text.padded width n := by
    rw [← hstop m rest, h, hstop]
  refine ⟨?_, ?_⟩
  · rw [← Text.value_padded width m, hrun, Text.value_padded]
  · rw [hrun] at h
    exact (List.cons.inj (List.append_cancel_left h)).2

/-! ## Dates -/

namespace Date

variable {d e : Date}

/-- The first character of a year is its sign, if it has one. -/
theorem head?_yearChars (year : Int) (rest : List Char) :
    ((yearChars year ++ rest).head? = some '-' ↔ year < 0) ∧
    ((yearChars year ++ rest).head? = some '+' ↔ 9999 < year) := by
  have hdigit : ∀ c, (Text.padded 4 year.natAbs ++ rest).head? = some c → Number.isDigit c := by
    intro c hc
    have hne : Text.padded 4 year.natAbs ≠ [] :=
      List.append_ne_nil_of_right_ne_nil _ Nat.toDigits_ne_nil
    rw [List.head?_append_of_ne_nil _ hne] at hc
    exact Text.isDigit_of_mem_padded (List.mem_of_mem_head? hc)
  unfold yearChars
  split
  next hneg => simp [hneg]; omega
  next hneg =>
    split
    next hlarge => simp [hlarge]; omega
    next hlarge =>
      refine ⟨⟨fun h => ?_, fun h => absurd h hneg⟩, ⟨fun h => ?_, fun h => absurd h hlarge⟩⟩
      · exact absurd (hdigit _ h) (by decide)
      · exact absurd (hdigit _ h) (by decide)

theorem yearChars_hyphen_inj {year year' : Int} {rest rest' : List Char}
    (h : yearChars year ++ '-' :: rest = yearChars year' ++ '-' :: rest') :
    year = year' ∧ rest = rest' := by
  have hneg : year < 0 ↔ year' < 0 := by
    rw [← (head?_yearChars year ('-' :: rest)).1, h, (head?_yearChars year' ('-' :: rest')).1]
  have hlarge : 9999 < year ↔ 9999 < year' := by
    rw [← (head?_yearChars year ('-' :: rest)).2, h, (head?_yearChars year' ('-' :: rest')).2]
  simp only [yearChars, hneg, hlarge] at h
  -- Both years are written with the same sign, or both without one.
  split at h
  next =>
    obtain ⟨habs, hrest⟩ := padded_hyphen_inj (List.cons.inj h).2
    exact ⟨by omega, hrest⟩
  next =>
    split at h
    next =>
      obtain ⟨habs, hrest⟩ := padded_hyphen_inj (List.cons.inj h).2
      exact ⟨by omega, hrest⟩
    next =>
      obtain ⟨habs, hrest⟩ := padded_hyphen_inj h
      exact ⟨by omega, hrest⟩

theorem digits_month (h : d.isValid) : Digits 2 (Text.padded 2 d.month) d.month := by
  have hmonth := (isValid_iff.1 h).2.1
  exact digits_padded (by decide) (by omega)

theorem digits_day (h : d.isValid) : Digits 2 (Text.padded 2 d.day) d.day := by
  have hday := (isValid_iff.1 h).2.2.2
  have hlast := daysInMonth_le d.year d.month
  exact digits_padded (by decide) (by omega)

/-- A date is told by its text, whatever follows. -/
theorem chars_append_inj (hd : d.isValid) (he : e.isValid) {rest rest' : List Char}
    (h : d.chars ++ rest = e.chars ++ rest') : d = e ∧ rest = rest' := by
  simp only [chars, List.append_assoc, List.cons_append] at h
  obtain ⟨hyear, h⟩ := yearChars_hyphen_inj h
  obtain ⟨hmonth, h⟩ := (digits_month hd).append_inj (digits_month he) h
  obtain ⟨hday, hrest⟩ := (digits_day hd).append_inj (digits_day he) (List.cons.inj h).2
  obtain ⟨year, month, day⟩ := d
  obtain ⟨year', month', day'⟩ := e
  simp only at hyear hmonth hday
  exact ⟨by rw [hyear, hmonth, hday], hrest⟩

end Date

/-! ## Fractions of a second -/

/-- The nanoseconds of a fraction are its value, cut off after the ninth place. -/
theorem Reading.nanos_eq {digits : List Char} (hdigits : ∀ c ∈ digits, Number.isDigit c) :
    nanos digits = Number.value digits * 1000000000 / Number.tenTo digits.length := by
  have htake : nanos digits = Number.value ((digits ++ List.replicate 9 '0').take 9) := by
    rw [nanos]
    split
    next hnil =>
      rw [hnil]
      rfl
    next => rfl
  have hten : ∀ n, Number.tenTo n = 10 ^ n := fun _ => rfl
  rw [htake, List.take_append, List.take_replicate, hten]
  rcases Nat.le_total digits.length 9 with hle | hle
  · -- Zeros are added up to the ninth place.
    obtain ⟨k, hk⟩ := Nat.exists_eq_add_of_le hle
    have hmissing : min (9 - digits.length) 9 = k := by omega
    have hpow : 1000000000 = 10 ^ k * 10 ^ digits.length := by
      rw [← pow_add, Nat.add_comm, ← hk]
      rfl
    rw [List.take_of_length_le hle, hmissing, Number.value_append, Number.value_replicate_zero,
      List.length_replicate, hpow, ← Nat.mul_assoc, Nat.mul_div_cancel _ (by positivity)]
    ring
  · -- What stands after the ninth place is less than one unit of it.
    obtain ⟨k, hk⟩ := Nat.exists_eq_add_of_le hle
    have hmissing : min (9 - digits.length) 9 = 0 := by omega
    have hlength : (digits.drop 9).length = k := by
      rw [List.length_drop]
      omega
    have hvalue := Number.value_append (digits.take 9) (digits.drop 9)
    have hsmall : Number.value (digits.drop 9) < 10 ^ (digits.drop 9).length :=
      Number.value_lt fun c hc => hdigits c (List.mem_of_mem_drop hc)
    rw [List.take_append_drop, hlength] at hvalue
    rw [hlength] at hsmall
    have hpow : 10 ^ digits.length = 1000000000 * 10 ^ k := by
      rw [hk, pow_add]
      rfl
    rw [hmissing, List.replicate_zero, List.append_nil, hpow, Nat.mul_comm (Number.value digits),
      Nat.mul_div_mul_left _ _ (by decide), hvalue, Nat.mul_add_div (by positivity),
      Nat.div_eq_of_lt hsmall, Nat.add_zero]

theorem Reading.nanos_lt {digits : List Char} (hdigits : ∀ c ∈ digits, Number.isDigit c) :
    nanos digits < 1000000000 := by
  have hvalue := Number.value_lt hdigits
  rw [nanos_eq hdigits]
  exact Nat.div_lt_of_lt_mul (Nat.mul_lt_mul_of_pos_right hvalue (by decide))

theorem Fraction.isDigit {frac digits : List Char} (h : Fraction frac digits) :
    ∀ c ∈ digits, Number.isDigit c := by
  cases h with
  | absent => simp
  | present _ hdigits => exact hdigits

theorem Fraction.isBlank {frac digits : List Char} (h : Fraction frac digits) :
    ∀ c ∈ frac, Text.isBlank c = false := by
  cases h with
  | absent => simp
  | present _ hdigits =>
    exact List.forall_mem_cons.2 ⟨by decide, fun c hc => Text.isBlank_of_isDigit (hdigits c hc)⟩

theorem Fraction.unique {frac digits digits' : List Char} (h : Fraction frac digits)
    (h' : Fraction frac digits') : digits = digits' := by
  cases h <;> cases h' <;> rfl

/-- The written fraction is exact. -/
theorem exists_fraction_fractionChars {nano : Nat} (h : nano < 1000000000) :
    ∃ digits, Fraction (Timestamp.fractionChars nano) digits ∧ Reading.nanos digits = nano := by
  have hpadded : ∀ width n, 0 < width → n < 10 ^ width →
      Fraction ('.' :: Text.padded width n) (Text.padded width n) ∧
        Reading.nanos (Text.padded width n) = n * 1000000000 / 10 ^ width := by
    intro width n hwidth hn
    have hdigits : ∀ c ∈ Text.padded width n, Number.isDigit c := fun _ =>
      Text.isDigit_of_mem_padded
    have hlength := Text.length_padded hwidth hn
    refine ⟨.present ?_ hdigits, ?_⟩
    · intro hnil
      rw [hnil] at hlength
      exact absurd hlength (Nat.ne_of_lt hwidth)
    · rw [Reading.nanos_eq hdigits, Text.value_padded, hlength]
      rfl
  unfold Timestamp.fractionChars
  split
  next hzero => exact ⟨[], .absent, hzero.symm⟩
  next =>
    split
    next hmilli =>
      obtain ⟨hfraction, hnanos⟩ := hpadded 3 (nano / 1000000) (by decide) (by omega)
      exact ⟨_, hfraction, by omega⟩
    next =>
      split
      next hmicro =>
        obtain ⟨hfraction, hnanos⟩ := hpadded 6 (nano / 1000) (by decide) (by omega)
        exact ⟨_, hfraction, by omega⟩
      next =>
        obtain ⟨hfraction, hnanos⟩ := hpadded 9 nano (by decide) (by omega)
        exact ⟨_, hfraction, by omega⟩

theorem fractionChars_inj {m n : Nat} (hm : m < 1000000000) (hn : n < 1000000000)
    (h : Timestamp.fractionChars m = Timestamp.fractionChars n) : m = n := by
  obtain ⟨digits, hdigits, rfl⟩ := exists_fraction_fractionChars hm
  obtain ⟨digits', hdigits', rfl⟩ := exists_fraction_fractionChars hn
  rw [h] at hdigits
  rw [hdigits.unique hdigits']

/-! ## Timestamps -/

namespace Timestamp

/-- The parts of a timestamp are in range. -/
structure IsValid (t : Timestamp) : Prop where
  /-- The date is one of the calendar. -/
  date : t.date.isValid
  /-- The minute is one of the day. -/
  minute : t.minute < 1440
  /-- The second is one of the minute, or a leap second. -/
  second : t.second ≤ 60
  /-- The nanosecond is one of the second. -/
  nano : t.nano < 1000000000

variable {t u : Timestamp}

theorem IsValid.digits_hour (h : t.IsValid) :
    Digits 2 (Text.padded 2 (t.minute / 60)) (t.minute / 60) := by
  have hminute := h.minute
  exact digits_padded (by decide) (by omega)

theorem digits_minute (t : Timestamp) :
    Digits 2 (Text.padded 2 (t.minute % 60)) (t.minute % 60) :=
  digits_padded (by decide) (by omega)

theorem IsValid.digits_second (h : t.IsValid) : Digits 2 (Text.padded 2 t.second) t.second := by
  have hsecond := h.second
  exact digits_padded (by decide) (by omega)

/-- A timestamp is told by its text. -/
theorem chars_injective (ht : t.IsValid) (hu : u.IsValid) (h : t.chars = u.chars) : t = u := by
  simp only [chars] at h
  obtain ⟨hdate, h⟩ := Date.chars_append_inj ht.date hu.date h
  obtain ⟨hhour, h⟩ := ht.digits_hour.append_inj hu.digits_hour (List.cons.inj h).2
  obtain ⟨hminute, h⟩ := t.digits_minute.append_inj u.digits_minute (List.cons.inj h).2
  obtain ⟨hsecond, h⟩ := ht.digits_second.append_inj hu.digits_second (List.cons.inj h).2
  have hnano := fractionChars_inj ht.nano hu.nano (List.append_cancel_right h)
  obtain ⟨date, minute, second, nano⟩ := t
  obtain ⟨date', minute', second', nano'⟩ := u
  simp only at hdate hhour hminute hsecond hnano
  rw [hdate, hsecond, hnano, show minute = minute' by omega]

theorem text_injective (ht : t.IsValid) (hu : u.IsValid) (h : t.text = u.text) : t = u :=
  chars_injective ht hu (String.ofList_injective h)

end Timestamp

end Time

end NetQuery
