import NetQuery.Proofs.Fields
import NetQuery.Time.Timestamp

/-!
# How timestamps are written

RFC 3339 says how a timestamp is written: its parts, how many digits each has, and in which range
each lies. `Spells` states that grammar and with it what a text says, before anything is moved to
UTC. The reader of timestamps takes one part after the other; it accepts the texts of the grammar
and no others.
-/

namespace NetQuery.Time

/-! ## The grammar -/

/-- A number written with exactly `count` digits. -/
structure Digits (count : Nat) (run : List Char) (n : Nat) : Prop where
  /-- There are that many. -/
  length : run.length = count
  /-- They are digits. -/
  digits : ∀ c ∈ run, Number.isDigit c
  /-- They stand for the number. -/
  value : Number.value run = n

/-- The fraction of a second, which may be absent, and its digits. -/
inductive Fraction : List Char → List Char → Prop where
  | absent : Fraction [] []
  | present {run : List Char} (hne : run ≠ []) (h : ∀ c ∈ run, Number.isDigit c) :
      Fraction ('.' :: run) run

/-- The offset from UTC, with its value in minutes. -/
inductive Zone : List Char → Int → Prop where
  | utc {c : Char} (h : c = 'Z' ∨ c = 'z') : Zone [c] 0
  | ahead {hh mm : List Char} {hours minutes : Nat} (hhours : Digits 2 hh hours) (hlt : hours < 24)
      (hminutes : Digits 2 mm minutes) (hlt' : minutes < 60) :
      Zone ('+' :: (hh ++ ':' :: mm)) (60 * hours + minutes)
  | behind {sign : Char} {hh mm : List Char} {hours minutes : Nat} (hsign : sign = '-' ∨ sign = '−')
      (hhours : Digits 2 hh hours) (hlt : hours < 24) (hminutes : Digits 2 mm minutes)
      (hlt' : minutes < 60) : Zone (sign :: (hh ++ ':' :: mm)) (-(60 * hours + minutes))

/-- What a written timestamp says, part by part. -/
structure Reading where
  /-- The date, where the timestamp was taken. -/
  date : Date
  /-- The hour there. -/
  hour : Nat
  /-- The minute of the hour. -/
  minute : Nat
  /-- The second of the minute. -/
  second : Nat
  /-- The digits of the fraction of the second. -/
  fraction : List Char
  /-- The offset from UTC in minutes. -/
  offset : Int

/-- The text is a timestamp of RFC 3339 and says what the reading holds. The letters may be small, a
space may stand between date and time, and a minus sign may stand for the hyphen of an offset. -/
inductive Spells : List Char → Reading → Prop where
  | intro {year month day hour minute second : Nat}
      {yyyy mm dd hh nn ss frac digits zone : List Char} {divider : Char} {offset : Int}
      (hyear : Digits 4 yyyy year) (hmonth : Digits 2 mm month) (hday : Digits 2 dd day)
      (hdate : (⟨year, month, day⟩ : Date).isValid)
      (hdivider : divider = 'T' ∨ divider = 't' ∨ divider = ' ')
      (hhour : Digits 2 hh hour) (hhour' : hour < 24)
      (hminute : Digits 2 nn minute) (hminute' : minute < 60)
      (hsecond : Digits 2 ss second) (hsecond' : second ≤ 60)
      (hfrac : Fraction frac digits) (hzone : Zone zone offset) :
      Spells (yyyy ++ '-' :: (mm ++ '-' :: (dd ++ divider :: (hh ++ ':' :: (nn ++ ':' ::
        (ss ++ (frac ++ zone)))))))
        ⟨⟨year, month, day⟩, hour, minute, second, digits, offset⟩

/-- The text is a timestamp of RFC 3339, blanks around it apart. -/
def IsRfc3339 (s : String) : Prop := ∃ r, Spells (Text.trimChars s.toList) r

namespace Reading

/-- The nanoseconds of a fraction: its first nine digits, with zeros for those that are missing. -/
def nanos (digits : List Char) : Nat :=
  if digits = [] then 0 else Number.value ((digits ++ List.replicate 9 '0').take 9)

/-- The timestamp in UTC. -/
def toUtc (r : Reading) : Timestamp :=
  .atOffset r.date (60 * r.hour + r.minute) r.offset r.second (nanos r.fraction)

end Reading

/-! ## The reader -/

namespace Timestamp

variable {cs rest : List Char}

theorem digits_eq_some_iff {count n : Nat} :
    digits count cs = some (n, rest) ↔ ∃ run, Digits count run n ∧ cs = run ++ rest := by
  simp only [digits]
  constructor
  · intro h
    split at h
    next hrun =>
      simp only [Bool.and_eq_true, decide_eq_true_eq, List.all_eq_true] at hrun
      cases h
      exact ⟨cs.take count, ⟨hrun.1, hrun.2, rfl⟩, (List.take_append_drop count cs).symm⟩
    next => cases h
  · rintro ⟨run, ⟨rfl, hdigits, rfl⟩, rfl⟩
    simp only [List.take_left, List.drop_left, decide_true, Bool.true_and, List.all_eq_true]
    exact if_pos hdigits

theorem digits_append {count n : Nat} {run : List Char} (h : Digits count run n) :
    digits count (run ++ rest) = some (n, rest) :=
  digits_eq_some_iff.2 ⟨run, h, rfl⟩

theorem mark_eq_some_iff {c : Char} : mark c cs = some rest ↔ cs = c :: rest := by
  cases cs with
  | nil => simp [mark]
  | cons d cs => simp [mark]

theorem divider_eq_some_iff : divider cs = some rest ↔
    ∃ c, (c = 'T' ∨ c = 't' ∨ c = ' ') ∧ cs = c :: rest := by
  unfold divider
  split <;> simp_all

theorem offsetSign_eq_some_iff {negative : Bool} : offsetSign cs = some (negative, rest) ↔
    (negative = false ∧ cs = '+' :: rest) ∨
      (negative = true ∧ ∃ sign, (sign = '-' ∨ sign = '−') ∧ cs = sign :: rest) := by
  unfold offsetSign
  split <;> simp_all

/-- A fraction ends where its digits end, and an absent one is not followed by a point. -/
theorem fraction_of_append {frac digits : List Char} (h : Fraction frac digits)
    (hrest : ∀ c ∈ rest.head?, c ≠ '.' ∧ Number.isDigit c = false) :
    fraction (frac ++ rest) = some (Reading.nanos digits, rest) := by
  cases h with
  | absent =>
    unfold fraction
    split
    next heq =>
      obtain rfl : rest = '.' :: _ := heq
      exact absurd rfl (hrest '.' rfl).1
    next => rfl
  | present hne hdigits =>
    have hrun := Text.takeWhile_append_of_stop hdigits fun c hc => (hrest c hc).2
    have hdrop := List.takeWhile_append_dropWhile (p := Number.isDigit) (l := digits ++ rest)
    rw [hrun] at hdrop
    simp only [fraction, List.cons_append, hrun, List.append_cancel_left hdrop, List.isEmpty_iff,
      if_neg hne, Reading.nanos]

theorem exists_fraction {nano : Nat} (h : fraction cs = some (nano, rest)) :
    ∃ frac digits, Fraction frac digits ∧ cs = frac ++ rest ∧ nano = Reading.nanos digits := by
  unfold fraction at h
  split at h
  next tail =>
    simp only [List.isEmpty_iff] at h
    split at h
    next => cases h
    next hne =>
      cases h
      refine ⟨_, _, .present hne fun c hc => List.mem_takeWhile_imp hc, ?_, ?_⟩
      · rw [List.cons_append, List.takeWhile_append_dropWhile]
      · rw [Reading.nanos, if_neg hne]
  next =>
    cases h
    exact ⟨[], [], .absent, rfl, rfl⟩

/-- An offset that does not start with a letter has a sign, hours and minutes. -/
theorem offset_of_sign {sign : Char} {hh mm : List Char} {negative : Bool} {hours minutes : Nat}
    (hsign : ∀ cs, offsetSign (sign :: cs) = some (negative, cs)) (hhours : Digits 2 hh hours)
    (hlt : hours < 24) (hminutes : Digits 2 mm minutes) (hlt' : minutes < 60) :
    offset (sign :: (hh ++ ':' :: (mm ++ rest))) =
      some ((if negative then -(60 * hours + minutes) else 60 * hours + minutes : Int), rest) := by
  unfold offset
  split
  next heq =>
    obtain ⟨rfl, -⟩ := List.cons.inj heq
    cases hsign []
  next heq =>
    obtain ⟨rfl, -⟩ := List.cons.inj heq
    cases hsign []
  next =>
    refine Option.bind_eq_some_iff.2 ⟨_, hsign _, ?_⟩
    refine Option.bind_eq_some_iff.2 ⟨_, digits_append hhours, ?_⟩
    refine Option.bind_eq_some_iff.2 ⟨_, mark_eq_some_iff.2 rfl, ?_⟩
    refine Option.bind_eq_some_iff.2 ⟨_, digits_append hminutes, ?_⟩
    exact if_pos (by simp [hlt, hlt'])

theorem offset_eq_some_iff {minutes : Int} : offset cs = some (minutes, rest) ↔
    ∃ zone, Zone zone minutes ∧ cs = zone ++ rest := by
  constructor
  · intro h
    unfold offset at h
    split at h
    next =>
      cases h
      exact ⟨['Z'], .utc (Or.inl rfl), rfl⟩
    next =>
      cases h
      exact ⟨['z'], .utc (Or.inr rfl), rfl⟩
    next =>
      obtain ⟨⟨negative, _⟩, hsign, h⟩ := Option.bind_eq_some_iff.1 h
      obtain ⟨⟨hours, _⟩, hhours, h⟩ := Option.bind_eq_some_iff.1 h
      obtain ⟨_, hcolon, h⟩ := Option.bind_eq_some_iff.1 h
      obtain ⟨⟨mins, _⟩, hmins, hend⟩ := Option.bind_eq_some_iff.1 h
      obtain ⟨hh, hhh, rfl⟩ := digits_eq_some_iff.1 hhours
      obtain rfl := mark_eq_some_iff.1 hcolon
      obtain ⟨mm, hmm, rfl⟩ := digits_eq_some_iff.1 hmins
      simp only [Bool.and_eq_true, decide_eq_true_eq] at hend
      split at hend
      next hlt =>
        cases hend
        rcases offsetSign_eq_some_iff.1 hsign with ⟨rfl, rfl⟩ | ⟨rfl, sign, hminus, rfl⟩
        · exact ⟨_, .ahead hhh hlt.1 hmm hlt.2, by simp⟩
        · exact ⟨_, .behind hminus hhh hlt.1 hmm hlt.2, by simp⟩
      next => cases hend
  · rintro ⟨zone, hzone, rfl⟩
    cases hzone with
    | utc h => rcases h with rfl | rfl <;> rfl
    | ahead hhours hlt hminutes hlt' =>
      rw [List.cons_append, List.append_assoc, List.cons_append]
      have hplus : ∀ cs, offsetSign ('+' :: cs) = some (false, cs) := fun _ => rfl
      exact offset_of_sign hplus hhours hlt hminutes hlt'
    | @behind sign _ _ _ _ hsign hhours hlt hminutes hlt' =>
      rw [List.cons_append, List.append_assoc, List.cons_append]
      have hminus : ∀ cs, offsetSign (sign :: cs) = some (true, cs) := fun _ =>
        offsetSign_eq_some_iff.2 (Or.inr ⟨rfl, sign, hsign, rfl⟩)
      exact offset_of_sign hminus hhours hlt hminutes hlt'

/-- An offset starts with a sign or a letter, so it is not taken for a part of the fraction. -/
theorem head?_zone {zone : List Char} {minutes : Int} (h : Zone zone minutes) :
    ∀ c ∈ zone.head?, c ≠ '.' ∧ Number.isDigit c = false := by
  cases h with
  | utc h => rcases h with rfl | rfl <;> simp [Number.isDigit]
  | ahead => simp [Number.isDigit]
  | behind hsign => rcases hsign with rfl | rfl <;> simp [Number.isDigit]

/-- The reader accepts the texts of the grammar and no others, and takes them for what they say. -/
theorem ofChars?_eq_some_iff {t : Timestamp} :
    ofChars? cs = some t ↔ ∃ r, Spells cs r ∧ r.toUtc = t := by
  constructor
  · intro h
    obtain ⟨⟨year, _⟩, hyear, h⟩ := Option.bind_eq_some_iff.1 h
    obtain ⟨_, hhyphen, h⟩ := Option.bind_eq_some_iff.1 h
    obtain ⟨⟨month, _⟩, hmonth, h⟩ := Option.bind_eq_some_iff.1 h
    obtain ⟨_, hhyphen', h⟩ := Option.bind_eq_some_iff.1 h
    obtain ⟨⟨day, _⟩, hday, h⟩ := Option.bind_eq_some_iff.1 h
    obtain ⟨_, hdivider, h⟩ := Option.bind_eq_some_iff.1 h
    obtain ⟨⟨hour, _⟩, hhour, h⟩ := Option.bind_eq_some_iff.1 h
    obtain ⟨_, hcolon, h⟩ := Option.bind_eq_some_iff.1 h
    obtain ⟨⟨minute, _⟩, hminute, h⟩ := Option.bind_eq_some_iff.1 h
    obtain ⟨_, hcolon', h⟩ := Option.bind_eq_some_iff.1 h
    obtain ⟨⟨second, _⟩, hsecond, h⟩ := Option.bind_eq_some_iff.1 h
    obtain ⟨⟨nano, _⟩, hfraction, h⟩ := Option.bind_eq_some_iff.1 h
    obtain ⟨⟨offset, _⟩, hoffset, hend⟩ := Option.bind_eq_some_iff.1 h
    -- Each part tells what it took, from the front on, and so the text is put together again.
    obtain ⟨yyyy, hyyyy, rfl⟩ := digits_eq_some_iff.1 hyear
    obtain rfl := mark_eq_some_iff.1 hhyphen
    obtain ⟨mm, hmm, rfl⟩ := digits_eq_some_iff.1 hmonth
    obtain rfl := mark_eq_some_iff.1 hhyphen'
    obtain ⟨dd, hdd, rfl⟩ := digits_eq_some_iff.1 hday
    obtain ⟨divider, hmark, rfl⟩ := divider_eq_some_iff.1 hdivider
    obtain ⟨hh, hhh, rfl⟩ := digits_eq_some_iff.1 hhour
    obtain rfl := mark_eq_some_iff.1 hcolon
    obtain ⟨nn, hnn, rfl⟩ := digits_eq_some_iff.1 hminute
    obtain rfl := mark_eq_some_iff.1 hcolon'
    obtain ⟨ss, hss, rfl⟩ := digits_eq_some_iff.1 hsecond
    obtain ⟨frac, digits, hfrac, rfl, rfl⟩ := exists_fraction hfraction
    obtain ⟨zone, hzone, rfl⟩ := offset_eq_some_iff.1 hoffset
    simp only [Bool.and_eq_true, decide_eq_true_eq, List.isEmpty_iff] at hend
    split at hend
    next hranges =>
      obtain ⟨⟨⟨⟨rfl, hdate⟩, hhour'⟩, hminute'⟩, hsecond'⟩ := hranges
      cases hend
      rw [List.append_nil]
      exact ⟨_, .intro hyyyy hmm hdd hdate hmark hhh hhour' hnn hminute' hss hsecond' hfrac hzone,
        rfl⟩
    next => cases hend
  · rintro ⟨r, ⟨hyear, hmonth, hday, hdate, hdivider, hhour, hhour', hminute, hminute', hsecond,
      hsecond', hfrac, hzone⟩, rfl⟩
    refine Option.bind_eq_some_iff.2 ⟨_, digits_append hyear, ?_⟩
    refine Option.bind_eq_some_iff.2 ⟨_, mark_eq_some_iff.2 rfl, ?_⟩
    refine Option.bind_eq_some_iff.2 ⟨_, digits_append hmonth, ?_⟩
    refine Option.bind_eq_some_iff.2 ⟨_, mark_eq_some_iff.2 rfl, ?_⟩
    refine Option.bind_eq_some_iff.2 ⟨_, digits_append hday, ?_⟩
    refine Option.bind_eq_some_iff.2 ⟨_, divider_eq_some_iff.2 ⟨_, hdivider, rfl⟩, ?_⟩
    refine Option.bind_eq_some_iff.2 ⟨_, digits_append hhour, ?_⟩
    refine Option.bind_eq_some_iff.2 ⟨_, mark_eq_some_iff.2 rfl, ?_⟩
    refine Option.bind_eq_some_iff.2 ⟨_, digits_append hminute, ?_⟩
    refine Option.bind_eq_some_iff.2 ⟨_, mark_eq_some_iff.2 rfl, ?_⟩
    refine Option.bind_eq_some_iff.2 ⟨_, digits_append hsecond, ?_⟩
    refine Option.bind_eq_some_iff.2 ⟨_, fraction_of_append hfrac (head?_zone hzone), ?_⟩
    refine Option.bind_eq_some_iff.2
      ⟨_, offset_eq_some_iff.2 ⟨_, hzone, (List.append_nil _).symm⟩, ?_⟩
    exact if_pos (by simp [hdate, hhour', hminute', hsecond'])

theorem normalize?_eq_some_iff {s standard : String} : normalize? s = some standard ↔
    ∃ r, Spells (Text.trimChars s.toList) r ∧ r.toUtc.text = standard := by
  simp only [normalize?, ofText?, Text.trim, String.toList_ofList, Option.map_eq_some_iff,
    ofChars?_eq_some_iff]
  constructor
  · rintro ⟨_, ⟨r, hr, rfl⟩, rfl⟩
    exact ⟨r, hr, rfl⟩
  · rintro ⟨r, hr, rfl⟩
    exact ⟨_, ⟨r, hr, rfl⟩, rfl⟩

/-- A text has a standard form if and only if it is a timestamp. -/
theorem exists_normalize?_iff {s : String} :
    (∃ standard, normalize? s = some standard) ↔ IsRfc3339 s := by
  simp only [normalize?_eq_some_iff]
  constructor
  · rintro ⟨_, r, hr, -⟩
    exact ⟨r, hr⟩
  · rintro ⟨r, hr⟩
    exact ⟨_, r, hr, rfl⟩

end Timestamp

end NetQuery.Time
