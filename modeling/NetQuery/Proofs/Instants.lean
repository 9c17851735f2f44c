import NetQuery.Proofs.Binding
import NetQuery.Proofs.TimeTexts

/-!
# The instant that a timestamp names

Many texts name one instant: the clocks of two places differ, a fraction may have zeros at its end,
and letters may be small. What a text names is a matter of counting: the minutes from the start of
year zero to its date and time, less the offset, and then the second and the nanosecond. The binder
works on the calendar instead and writes a text. The two agree, so that texts have one standard form
if and only if they name one instant, and a standard form stands for itself as long as four digits
are enough for its year.
-/

namespace NetQuery

namespace Time

/-! ## Instants -/

/-- A point in time, to the nanosecond. Minutes are counted, and the seconds within one are kept
apart, since a minute may have a leap second, which is not the first second of the next. -/
structure Instant where
  /-- The number of minutes from the start of year zero, in UTC. -/
  minute : Int
  /-- The second of the minute; 60 in a leap second. -/
  second : Nat
  /-- The nanosecond of the second. -/
  nano : Nat
deriving DecidableEq, Repr

/-- The instant that a reading names. The fraction is cut off after the nanoseconds. -/
def Reading.instant (r : Reading) : Instant where
  minute := 1440 * r.date.dayNumber + 60 * r.hour + r.minute - r.offset
  second := r.second
  nano := Number.value r.fraction * 1000000000 / Number.tenTo r.fraction.length

/-- The text names the instant. -/
def Denotes (s : String) (i : Instant) : Prop :=
  ∃ r, Spells (Text.trimChars s.toList) r ∧ r.instant = i

/-- The instant lies in a year that four digits are enough for. -/
def Instant.HasFourDigitYear (i : Instant) : Prop :=
  0 ≤ i.minute ∧ i.minute < 1440 * Date.daysBeforeYear 10000

instance (i : Instant) : Decidable i.HasFourDigitYear := inferInstanceAs (Decidable (_ ∧ _))

/-- The instant of a timestamp in UTC. -/
def Timestamp.instant (t : Timestamp) : Instant :=
  ⟨1440 * t.date.dayNumber + t.minute, t.second, t.nano⟩

namespace Timestamp

variable {t u : Timestamp}

theorem instant_injective (ht : t.IsValid) (hu : u.IsValid) (h : t.instant = u.instant) :
    t = u := by
  have htminute := ht.minute
  have huminute := hu.minute
  obtain ⟨date, minute, second, nano⟩ := t
  obtain ⟨date', minute', second', nano'⟩ := u
  simp only [instant, Instant.mk.injEq] at h
  simp only at htminute huminute
  obtain ⟨hminutes, rfl, rfl⟩ := h
  have hdate : date = date' := Date.dayNumber_injective ht.date hu.date (by omega)
  subst hdate
  rw [show minute = minute' by omega]

theorem hasFourDigitYear_iff (h : t.IsValid) :
    t.instant.HasFourDigitYear ↔ 0 ≤ t.date.year ∧ t.date.year ≤ 9999 := by
  have hminute := h.minute
  have hfirst := Date.daysBeforeYear_le_iff h.date 0
  have hlast := Date.daysBeforeYear_le_iff h.date 10000
  have hzero : Date.daysBeforeYear 0 = 0 := rfl
  simp only [instant, Instant.HasFourDigitYear]
  omega

/-! ## Moving to UTC -/

/-- Moving by less than a day reaches a valid minute of this day or of a neighbour, and goes as far
as the offset says. -/
theorem atOffset_spec {date : Date} {minute second nano : Nat} {offset : Int}
    (hdate : date.isValid) (hminute : minute < 1440) (hlow : -1440 < offset)
    (hhigh : offset < 1440) (hsecond : second ≤ 60) (hnano : nano < 1000000000) :
    (atOffset date minute offset second nano).IsValid ∧
    (atOffset date minute offset second nano).instant =
      ⟨1440 * date.dayNumber + minute - offset, second, nano⟩ := by
  simp only [atOffset]
  split
  next hbefore =>
    obtain ⟨hvalid, hnumber⟩ := Date.pred_spec hdate
    refine ⟨⟨hvalid, by simp only; omega, hsecond, hnano⟩, ?_⟩
    simp only [instant, hnumber, Instant.mk.injEq, and_true]
    omega
  next hbefore =>
    split
    next hafter =>
      obtain ⟨hvalid, hnumber⟩ := Date.succ_spec hdate
      refine ⟨⟨hvalid, by simp only; omega, hsecond, hnano⟩, ?_⟩
      simp only [instant, hnumber, Instant.mk.injEq, and_true]
      omega
    next hafter =>
      refine ⟨⟨hdate, by simp only; omega, hsecond, hnano⟩, ?_⟩
      simp only [instant, Instant.mk.injEq, and_true]
      omega

end Timestamp

theorem Zone.bounds {zone : List Char} {offset : Int} (h : Zone zone offset) :
    -1440 < offset ∧ offset < 1440 := by
  cases h <;> omega

/-- A timestamp in UTC names the instant that its text names. -/
theorem Spells.toUtc {cs : List Char} {r : Reading} (h : Spells cs r) :
    r.toUtc.IsValid ∧ r.toUtc.instant = r.instant := by
  cases h with
  | @intro year month day hour minute second _ _ _ _ _ _ _ _ _ _ _ _ _ _ hdate _ _ hhour _ hminute _
      hsecond hfrac hzone =>
    have hminutes : 60 * hour + minute < 1440 := by omega
    obtain ⟨hlow, hhigh⟩ := hzone.bounds
    obtain ⟨hvalid, hinstant⟩ := Timestamp.atOffset_spec hdate hminutes hlow hhigh hsecond
      (Reading.nanos_lt hfrac.isDigit)
    refine ⟨hvalid, hinstant.trans ?_⟩
    simp only [Reading.instant, Reading.nanos_eq hfrac.isDigit, Instant.mk.injEq, and_true]
    omega

/-- A text names one instant at most. -/
theorem Spells.denotes_iff {s : String} {r : Reading} (h : Spells (Text.trimChars s.toList) r)
    (i : Instant) : Denotes s i ↔ i = r.instant := by
  constructor
  · rintro ⟨r', hr', rfl⟩
    -- The reader finds one timestamp only, so both readings are moved to the same one.
    have hread := Timestamp.ofChars?_eq_some_iff.2 ⟨r, h, rfl⟩
    rw [Timestamp.ofChars?_eq_some_iff.2 ⟨r', hr', rfl⟩] at hread
    rw [← h.toUtc.2, ← hr'.toUtc.2, Option.some.inj hread]
  · rintro rfl
    exact ⟨r, h, rfl⟩

/-! ## Standard forms are timestamps -/

theorem Spells.head?_isDigit {cs : List Char} {r : Reading} (h : Spells cs r) :
    ∀ c ∈ cs.head?, Number.isDigit c := by
  cases h with
  | intro hyear =>
    intro c hc
    have hlength := hyear.length
    rw [List.head?_append_of_ne_nil _ (by rintro rfl; cases hlength)] at hc
    exact hyear.digits c (List.mem_of_mem_head? hc)

namespace Timestamp

variable {t : Timestamp}

/-- The text of a year without a sign. -/
theorem chars_eq (hlow : 0 ≤ t.date.year) (hhigh : t.date.year ≤ 9999) :
    t.chars = Text.padded 4 t.date.year.natAbs ++ '-' :: (Text.padded 2 t.date.month ++ '-' ::
      (Text.padded 2 t.date.day ++ 'T' :: (Text.padded 2 (t.minute / 60) ++ ':' ::
        (Text.padded 2 (t.minute % 60) ++ ':' :: (Text.padded 2 t.second ++
          (fractionChars t.nano ++ ['Z'])))))) := by
  have hyear : Date.yearChars t.date.year = Text.padded 4 t.date.year.natAbs := by
    rw [Date.yearChars, if_neg (by omega), if_neg (by omega)]
  simp only [chars, Date.chars, hyear, List.append_assoc, List.cons_append]

/-- With four digits for the year, the standard form is a timestamp and names its own instant. -/
theorem exists_spells_chars (h : t.IsValid) (hlow : 0 ≤ t.date.year) (hhigh : t.date.year ≤ 9999) :
    ∃ r, Spells t.chars r ∧ r.instant = t.instant := by
  obtain ⟨digits, hfraction, hnanos⟩ := exists_fraction_fractionChars h.nano
  have hminute := h.minute
  have hdate : (⟨t.date.year.natAbs, t.date.month, t.date.day⟩ : Date) = t.date := by
    rw [Int.natAbs_of_nonneg hlow]
  have hyear : Digits 4 (Text.padded 4 t.date.year.natAbs) t.date.year.natAbs :=
    digits_padded (by decide) (by omega)
  rw [chars_eq hlow hhigh]
  refine ⟨_, .intro hyear (Date.digits_month h.date) (Date.digits_day h.date) (hdate ▸ h.date)
    (Or.inl rfl) h.digits_hour (by omega) t.digits_minute (by omega) h.digits_second h.second
    hfraction (.utc (Or.inl rfl)), ?_⟩
  rw [Reading.instant, instant, hdate, ← Reading.nanos_eq hfraction.isDigit, hnanos,
    Instant.mk.injEq]
  simp only [and_true]
  omega

/-- A year with a sign does not start with a digit, and a timestamp does. -/
theorem not_spells_chars (h : ¬ (0 ≤ t.date.year ∧ t.date.year ≤ 9999)) (r : Reading) :
    ¬ Spells t.chars r := by
  intro hspells
  obtain ⟨rest, hrest⟩ : ∃ rest, t.chars = Date.yearChars t.date.year ++ rest :=
    ⟨_, by rw [chars, Date.chars, List.append_assoc]⟩
  obtain ⟨hminus, hplus⟩ := Date.head?_yearChars t.date.year rest
  rw [← hrest] at hminus hplus
  rcases (show t.date.year < 0 ∨ 9999 < t.date.year by omega) with hyear | hyear
  · exact absurd (hspells.head?_isDigit _ (hminus.2 hyear)) (by decide)
  · exact absurd (hspells.head?_isDigit _ (hplus.2 hyear)) (by decide)

theorem isBlank_of_mem_chars (h : t.IsValid) : ∀ c ∈ t.chars, Text.isBlank c = false := by
  have hpadded : ∀ width n, ∀ c ∈ Text.padded width n, Text.isBlank c = false :=
    fun width n c hc => Text.isBlank_of_isDigit (Text.isDigit_of_mem_padded hc)
  have hyear : ∀ c ∈ Date.yearChars t.date.year, Text.isBlank c = false := by
    unfold Date.yearChars
    split
    next => exact List.forall_mem_cons.2 ⟨by decide, hpadded _ _⟩
    next =>
      split
      next => exact List.forall_mem_cons.2 ⟨by decide, hpadded _ _⟩
      next => exact hpadded _ _
  obtain ⟨digits, hfraction, -⟩ := exists_fraction_fractionChars h.nano
  simp only [chars, Date.chars, List.forall_mem_append, List.forall_mem_cons]
  refine ⟨⟨hyear, by decide, hpadded _ _, by decide, hpadded _ _⟩, by decide, hpadded _ _,
    by decide, hpadded _ _, by decide, hpadded _ _, hfraction.isBlank, by decide, by simp⟩

theorem trimChars_text (h : t.IsValid) : Text.trimChars t.text.toList = t.chars := by
  rw [text, String.toList_ofList, Text.trimChars_of_no_blank (isBlank_of_mem_chars h)]

/-- The standard form of a timestamp is its own standard form, if four digits are enough for the
year; otherwise it is no timestamp at all. -/
theorem normalize?_text (h : t.IsValid) :
    normalize? t.text = if t.instant.HasFourDigitYear then some t.text else none := by
  by_cases hyears : t.instant.HasFourDigitYear
  · obtain ⟨hlow, hhigh⟩ := (hasFourDigitYear_iff h).1 hyears
    obtain ⟨r, hr, hinstant⟩ := exists_spells_chars h hlow hhigh
    have htoUtc : r.toUtc = t := instant_injective hr.toUtc.1 h (hr.toUtc.2.trans hinstant)
    rw [if_pos hyears]
    exact normalize?_eq_some_iff.2 ⟨r, by rwa [trimChars_text h], by rw [htoUtc]⟩
  · rw [if_neg hyears, Option.eq_none_iff_forall_ne_some]
    intro standard hstandard
    obtain ⟨r, hr, -⟩ := normalize?_eq_some_iff.1 hstandard
    rw [trimChars_text h] at hr
    exact not_spells_chars (mt (hasFourDigitYear_iff h).2 hyears) r hr

end Timestamp

end Time

/-! ## What the binder makes of timestamps -/

section Standard

open Time

variable {s standard : String}

theorem exists_spells_of_standard (h : normalizeTimestamp s = .ok standard) :
    ∃ r, Spells (Text.trimChars s.toList) r ∧ r.toUtc.text = standard :=
  Timestamp.normalize?_eq_some_iff.1 (normalizeTimestamp_eq_ok_iff.1 h)

/-- Standard forms are canonical: each of two timestamps names one instant, and they have the same
standard form if and only if they name the same. -/
theorem standard_eq_iff_instant_eq {a b x y : String} (ha : normalizeTimestamp a = .ok x)
    (hb : normalizeTimestamp b = .ok y) :
    ∃ i j, (∀ k, Denotes a k ↔ k = i) ∧ (∀ k, Denotes b k ↔ k = j) ∧ (x = y ↔ i = j) := by
  obtain ⟨r, hr, rfl⟩ := exists_spells_of_standard ha
  obtain ⟨r', hr', rfl⟩ := exists_spells_of_standard hb
  obtain ⟨hvalid, hinstant⟩ := hr.toUtc
  obtain ⟨hvalid', hinstant'⟩ := hr'.toUtc
  refine ⟨r.instant, r'.instant, hr.denotes_iff, hr'.denotes_iff, ?_⟩
  rw [← hinstant, ← hinstant']
  constructor
  · intro htext
    rw [Timestamp.text_injective hvalid hvalid' htext]
  · intro hsame
    rw [Timestamp.instant_injective hvalid hvalid' hsame]

/-- A leap second, the same leap second on another clock, and the second after it. -/
theorem standard_eq_iff_instant_eq_leap : ∃ i j,
    Denotes "2016-12-31T23:59:60.5Z" i ∧ Denotes " 2017-01-01t05:29:60.5000000009+05:30" i ∧
    Denotes "2017-01-01T00:00:00.5Z" j ∧ i ≠ j := by
  have hleap : normalizeTimestamp "2016-12-31T23:59:60.5Z" = .ok "2016-12-31T23:59:60.500Z" := by
    decide +kernel
  have hsame : normalizeTimestamp " 2017-01-01t05:29:60.5000000009+05:30" =
      .ok "2016-12-31T23:59:60.500Z" := by
    decide +kernel
  have hafter : normalizeTimestamp "2017-01-01T00:00:00.5Z" = .ok "2017-01-01T00:00:00.500Z" := by
    decide +kernel
  obtain ⟨i, i', hi, hi', heq⟩ := standard_eq_iff_instant_eq hleap hsame
  obtain ⟨k, j, hk, hj, hne⟩ := standard_eq_iff_instant_eq hleap hafter
  obtain rfl : k = i := ((hi k).1 ((hk k).2 rfl))
  obtain rfl : k = i' := heq.1 rfl
  exact ⟨k, j, (hi k).2 rfl, (hi' k).2 rfl, (hj j).2 rfl, fun h => absurd (hne.2 h) (by decide)⟩

/-- What becomes of the standard form of `s` when it is bound once more: it is kept if the instant
has a year of four digits, and refused if not. -/
def KeptIfFourDigits (s standard : String) : Prop :=
  ∃ i, (∀ k, Denotes s k ↔ k = i) ∧ normalizeTimestamp standard =
    if i.HasFourDigitYear then .ok standard else .error (.invalidTimestamp standard)

theorem keptIfFourDigits (h : normalizeTimestamp s = .ok standard) :
    KeptIfFourDigits s standard := by
  obtain ⟨r, hr, rfl⟩ := exists_spells_of_standard h
  obtain ⟨hvalid, hinstant⟩ := hr.toUtc
  refine ⟨r.instant, hr.denotes_iff, ?_⟩
  rw [normalizeTimestamp, Timestamp.normalize?_text hvalid, hinstant]
  split <;> rfl

/-- Only a text is bound as a timestamp. -/
theorem bind_timestamptz {value : Value} {type : ParamType}
    (h : value.bind type = .ok (.timestamptz standard)) :
    ∃ s, value = .text s ∧ normalizeTimestamp s = .ok standard := by
  unfold Value.bind at h
  split at h
  case h_2 s =>
    obtain ⟨_, hs, hparam⟩ := map_eq_ok_iff.1 h
    cases hparam
    exact ⟨s, rfl, hs⟩
  case h_7 =>
    obtain ⟨_, -, h⟩ := bind_eq_ok_iff.1 h
    obtain ⟨_, -, h⟩ := map_eq_ok_iff.1 h
    cases h
  case h_8 =>
    obtain ⟨_, -, h⟩ := bind_eq_ok_iff.1 h
    obtain ⟨_, -, h⟩ := map_eq_ok_iff.1 h
    cases h
  all_goals cases h

/-- A membership in timestamps binds texts, each in its standard form. -/
theorem bindList_timestamptz {value : Value} {standards : List String}
    (h : value.bindList (some .timestamptz) = .ok (.textArray standards)) :
    ∃ texts, value = .list (texts.map .text) ∧
      List.Forall₂ (fun s standard => normalizeTimestamp s = .ok standard) texts standards := by
  obtain ⟨type, htype, -⟩ := bind_eq_ok_iff.1 h
  obtain ⟨bound, hbound, hstandard⟩ := (bindList_eq_ok_iff htype).1 h
  obtain ⟨-, hholds⟩ := (bind_eq_ok_iff_holds htype).1 hbound
  cases hstandard with
  | texts hread =>
    cases hholds with
    | texts => exact ⟨_, rfl, hread.imp fun _ _ => normalizeTimestamp_eq_ok_iff.2⟩
  | other hne => exact absurd rfl hne

/-- A standard form is itself a timestamp, and the binder leaves it as it is, as long as four digits
are enough for its year; a standard form whose year has a sign is refused. This holds of every
parameter that is a timestamp, and of every text in a membership in timestamps. -/
theorem standard_kept_iff_four_digits (s : String) (value : Value) (type : ParamType) :
    (∀ standard, normalizeTimestamp s = .ok standard → KeptIfFourDigits s standard) ∧
    (∀ standard, value.bind type = .ok (.timestamptz standard) →
      ∃ text, value = .text text ∧ KeptIfFourDigits text standard) ∧
    ∀ standards, value.bindList (some .timestamptz) = .ok (.textArray standards) →
      ∃ texts, value = .list (texts.map .text) ∧
        List.Forall₂ KeptIfFourDigits texts standards := by
  refine ⟨fun standard => keptIfFourDigits, fun standard h => ?_, fun standards h => ?_⟩
  · obtain ⟨text, rfl, htext⟩ := bind_timestamptz h
    exact ⟨text, rfl, keptIfFourDigits htext⟩
  · obtain ⟨texts, rfl, hread⟩ := bindList_timestamptz h
    exact ⟨texts, rfl, hread.imp fun _ _ => keptIfFourDigits⟩

/-- The last second that four digits are enough for, and a minute later. -/
theorem standard_kept_iff_four_digits_last :
    ∃ texts, texts = ["9999-12-31T23:59:59.50Z", "9999-12-31T23:59:59-00:01"] ∧
    (Value.list (texts.map .text)).bindList (some .timestamptz) =
      .ok (.textArray ["9999-12-31T23:59:59.500Z", "+10000-01-01T00:00:59Z"]) ∧
    List.Forall₂ KeptIfFourDigits texts ["9999-12-31T23:59:59.500Z", "+10000-01-01T00:00:59Z"] ∧
    normalizeTimestamp "9999-12-31T23:59:59.500Z" = .ok "9999-12-31T23:59:59.500Z" := by
  have hread : normalizeTimestamps ["9999-12-31T23:59:59.50Z", "9999-12-31T23:59:59-00:01"] =
      .ok ["9999-12-31T23:59:59.500Z", "+10000-01-01T00:00:59Z"] := by
    decide +kernel
  have hlist : (Value.list [.text "9999-12-31T23:59:59.50Z",
      .text "9999-12-31T23:59:59-00:01"]).bindList (some .timestamptz) =
      .ok (.textArray ["9999-12-31T23:59:59.500Z", "+10000-01-01T00:00:59Z"]) := by
    rw [bindList_of_texts rfl rfl, hread]
    rfl
  obtain ⟨texts, htexts, hkept⟩ := (standard_kept_iff_four_digits "" _ .text).2.2 _ hlist
  obtain rfl : ["9999-12-31T23:59:59.50Z", "9999-12-31T23:59:59-00:01"] = texts :=
    List.map_injective_iff.2 (fun _ _ => Value.text.inj) (Value.list.inj htexts)
  exact ⟨_, rfl, hlist, hkept, by decide +kernel⟩

/-- The standard form of a timestamp need not be a timestamp: moved to UTC, the first minute of year
zero may lie in the year before, which has a sign. -/
theorem standard_refused :
    normalizeTimestamp "0000-01-01T00:00:00+00:01" = .ok "-0001-12-31T23:59:00Z" ∧
    normalizeTimestamp "-0001-12-31T23:59:00Z" =
      .error (.invalidTimestamp "-0001-12-31T23:59:00Z") := by
  decide +kernel

end Standard

end NetQuery
