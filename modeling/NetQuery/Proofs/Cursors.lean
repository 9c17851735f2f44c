import NetQuery.Paging.Plan
import NetQuery.Proofs.Fields

/-!
# Reading a cursor back

A cursor goes through three codes: the payload is JSON, its characters are bytes, and the bytes are
signs of base64. Each code is read back by itself, and together they give the offset back.
-/

namespace NetQuery

/-! ## Blanks -/

/-- Blanks around a text without blanks are trimmed away, and nothing else. -/
theorem Text.trimChars_blanks {before cs after : List Char} (hbefore : ∀ c ∈ before, isBlank c)
    (hafter : ∀ c ∈ after, isBlank c) (hcs : ∀ c ∈ cs, isBlank c = false) :
    trimChars (before ++ cs ++ after) = cs := by
  rw [trimChars, List.append_assoc, List.dropWhile_append_of_pos hbefore]
  cases cs with
  | nil =>
    rw [List.nil_append, List.dropWhile_eq_nil_iff.2 hafter]
    rfl
  | cons c cs =>
    have hfront : (c :: cs ++ after).dropWhile isBlank = c :: cs ++ after := by
      rw [List.cons_append, List.dropWhile_cons, hcs c List.mem_cons_self, if_neg (by decide)]
    rw [hfront, List.reverse_append, List.dropWhile_append_of_pos (by simpa using hafter),
      dropWhile_of_no_blank fun d hd => hcs d (List.mem_reverse.1 hd), List.reverse_reverse]

/-! ## Base64 -/

namespace Text.Base64

theorem number?_sign : ∀ n < 64, number? (sign n) = some n := by
  decide

theorem isBlank_sign : ∀ n < 64, isBlank (sign n) = false := by
  decide +kernel

/-- The numbers of the signs of a sequence of bytes. -/
def split : List UInt8 → List Nat
  | [] => []
  | [a] => [a.toNat / 4, a.toNat % 4 * 16]
  | [a, b] => [a.toNat / 4, a.toNat % 4 * 16 + b.toNat / 16, b.toNat % 16 * 4]
  | a :: b :: c :: rest =>
    a.toNat / 4 :: (a.toNat % 4 * 16 + b.toNat / 16) :: (b.toNat % 16 * 4 + c.toNat / 64)
      :: c.toNat % 64 :: split rest

theorem encode_eq_map (bytes : List UInt8) : encode bytes = (split bytes).map sign := by
  fun_induction encode bytes <;> simp_all [split]

theorem split_lt (bytes : List UInt8) : ∀ n ∈ split bytes, n < 64 := by
  fun_induction split bytes with
  | case1 => simp
  | case2 a =>
    have ha := a.toNat_lt
    simp only [List.forall_mem_cons]
    refine ⟨by omega, by omega, by simp⟩
  | case3 a b =>
    have ha := a.toNat_lt
    have hb := b.toNat_lt
    simp only [List.forall_mem_cons]
    refine ⟨by omega, by omega, by omega, by simp⟩
  | case4 a b c rest ih =>
    have ha := a.toNat_lt
    have hb := b.toNat_lt
    have hc := c.toNat_lt
    simp only [List.forall_mem_cons]
    refine ⟨by omega, by omega, by omega, by omega, ih⟩

theorem mapM_number? {ns : List Nat} (h : ∀ n ∈ ns, n < 64) :
    (ns.map sign).mapM number? = some ns := by
  induction ns with
  | nil => rfl
  | cons n ns ih =>
    have hn := number?_sign n (h n List.mem_cons_self)
    have hns := ih fun m hm => h m (List.mem_cons_of_mem _ hm)
    simp [List.mapM_cons, hn, hns]

theorem ofNat_of_eq {n : Nat} {b : UInt8} (h : n = b.toNat) : UInt8.ofNat n = b := by
  rw [h, UInt8.ofNat_toNat]

/-- Four numbers give their three bytes back; at the end, two or three give one or two. -/
theorem join_split (bytes : List UInt8) : join (split bytes) = some bytes := by
  fun_induction split bytes with
  | case1 => rfl
  | case2 a =>
    have ha := a.toNat_lt
    have hfirst : UInt8.ofNat (a.toNat / 4 * 4 + a.toNat % 4 * 16 / 16) = a :=
      ofNat_of_eq (by omega)
    rw [join, if_pos (by omega), hfirst]
  | case3 a b =>
    have ha := a.toNat_lt
    have hb := b.toNat_lt
    have hfirst : UInt8.ofNat (a.toNat / 4 * 4 + (a.toNat % 4 * 16 + b.toNat / 16) / 16) = a :=
      ofNat_of_eq (by omega)
    have hsecond : UInt8.ofNat
        ((a.toNat % 4 * 16 + b.toNat / 16) % 16 * 16 + b.toNat % 16 * 4 / 4) = b :=
      ofNat_of_eq (by omega)
    rw [join, if_pos (by omega), hfirst, hsecond]
  | case4 a b c rest ih =>
    have ha := a.toNat_lt
    have hb := b.toNat_lt
    have hc := c.toNat_lt
    have hfirst : UInt8.ofNat (a.toNat / 4 * 4 + (a.toNat % 4 * 16 + b.toNat / 16) / 16) = a :=
      ofNat_of_eq (by omega)
    have hsecond : UInt8.ofNat ((a.toNat % 4 * 16 + b.toNat / 16) % 16 * 16 +
        (b.toNat % 16 * 4 + c.toNat / 64) / 4) = b :=
      ofNat_of_eq (by omega)
    have hthird : UInt8.ofNat ((b.toNat % 16 * 4 + c.toNat / 64) % 4 * 64 + c.toNat % 64) = c :=
      ofNat_of_eq (by omega)
    rw [join, ih, Option.map_some, hfirst, hsecond, hthird]

theorem decode?_encode (bytes : List UInt8) : decode? (encode bytes) = some bytes := by
  rw [decode?, encode_eq_map, mapM_number? (split_lt bytes), Option.bind_some, join_split]

theorem isBlank_of_mem_encode {bytes : List UInt8} {c : Char} (h : c ∈ encode bytes) :
    isBlank c = false := by
  rw [encode_eq_map] at h
  obtain ⟨n, hn, rfl⟩ := List.mem_map.1 h
  exact isBlank_sign n (split_lt bytes n hn)

/-- A sign of the alphabet: an ASCII letter or digit, a hyphen or an underscore. -/
def isSign (c : Char) : Bool := c.isAlphanum || c = '-' || c = '_'

theorem isSign_sign : ∀ n < 64, isSign (sign n) := by
  decide

theorem isSign_of_mem_encode {bytes : List UInt8} {c : Char} (h : c ∈ encode bytes) :
    isSign c := by
  rw [encode_eq_map] at h
  obtain ⟨n, hn, rfl⟩ := List.mem_map.1 h
  exact isSign_sign n (split_lt bytes n hn)

/-! Writing is onto: whatever is read was written so, because a sign has one number and the bits
that are left over at the end have to be zero. -/

theorem number?_of_not_ascii {c : Char} (h : 128 ≤ c.toNat) : number? c = none := by
  have hgt : ∀ d : Char, d.toNat < 128 → ¬ c ≤ d := fun d hd hle =>
    absurd (UInt32.le_iff_toNat_le.1 hle) (Nat.not_le.2 (Nat.lt_of_lt_of_le hd h))
  have hne : ∀ d : Char, d.toNat < 128 → c ≠ d := by
    rintro _ hd rfl
    omega
  simp only [number?, hgt 'Z' (by decide), hgt 'z' (by decide), hgt '9' (by decide),
    hne '-' (by decide), hne '_' (by decide), decide_false, Bool.and_false, Bool.false_eq_true,
    if_false]

theorem sign_number?_ascii :
    ∀ m < 128, (number? (Char.ofNat m)).all fun n => n < 64 && sign n = Char.ofNat m := by
  decide +kernel

theorem sign_of_number? {c : Char} {n : Nat} (h : number? c = some n) : n < 64 ∧ sign n = c := by
  have hascii : c.toNat < 128 := by
    by_contra hc
    rw [number?_of_not_ascii (by omega)] at h
    cases h
  simpa [h] using sign_number?_ascii c.toNat hascii

theorem map_sign_of_mapM {signs : List Char} {ns : List Nat} (h : signs.mapM number? = some ns) :
    ns.map sign = signs ∧ ∀ n ∈ ns, n < 64 := by
  induction signs generalizing ns with
  | nil =>
    cases h
    simp
  | cons c signs ih =>
    rw [List.mapM_cons] at h
    obtain ⟨n, hn, h⟩ := Option.bind_eq_some_iff.1 h
    obtain ⟨ns', hns, hcons⟩ := Option.bind_eq_some_iff.1 h
    cases hcons
    obtain ⟨hlt, rfl⟩ := sign_of_number? hn
    obtain ⟨rfl, hall⟩ := ih hns
    exact ⟨rfl, List.forall_mem_cons.2 ⟨hlt, hall⟩⟩

theorem toNat_ofNat_of_lt {n : Nat} (h : n < 256) : (UInt8.ofNat n).toNat = n := by
  rw [UInt8.toNat_ofNat']
  omega

theorem split_of_join {ns : List Nat} {bytes : List UInt8} (hlt : ∀ n ∈ ns, n < 64)
    (h : join ns = some bytes) : split bytes = ns := by
  fun_induction join ns generalizing bytes with
  | case1 =>
    cases h
    rfl
  | case2 => cases h
  | case3 x y hloose =>
    cases h
    simp only [List.forall_mem_cons] at hlt
    rw [split, toNat_ofNat_of_lt (by omega)]
    congr <;> omega
  | case4 => cases h
  | case5 x y z hloose =>
    cases h
    simp only [List.forall_mem_cons] at hlt
    rw [split, toNat_ofNat_of_lt (by omega), toNat_ofNat_of_lt (by omega)]
    congr <;> omega
  | case6 => cases h
  | case7 x y z w rest ih =>
    obtain ⟨tail, htail, rfl⟩ := Option.map_eq_some_iff.1 h
    simp only [List.forall_mem_cons] at hlt
    obtain ⟨hx, hy, hz, hw, hrest⟩ := hlt
    rw [split, toNat_ofNat_of_lt (by omega), toNat_ofNat_of_lt (by omega),
      toNat_ofNat_of_lt (by omega), ih hrest htail]
    congr <;> omega

/-- Reading accepts exactly what writing produces. -/
theorem decode?_eq_some_iff {signs : List Char} {bytes : List UInt8} :
    decode? signs = some bytes ↔ signs = encode bytes := by
  constructor
  · intro h
    obtain ⟨ns, hns, hjoin⟩ := Option.bind_eq_some_iff.1 h
    obtain ⟨rfl, hlt⟩ := map_sign_of_mapM hns
    rw [encode_eq_map, split_of_join hlt hjoin]
  · rintro rfl
    exact decode?_encode bytes

end Text.Base64

/-! ## Bytes -/

/-- A text of ASCII characters has one byte for each. -/
theorem Text.ofUtf8_utf8 {s : String} (h : ∀ c ∈ s.toList, c.toNat < 128) :
    ofUtf8 (utf8 s) = s.toList.map some := by
  unfold ofUtf8 utf8
  generalize s.toList = cs at h
  induction cs with
  | nil => rfl
  | cons c cs ih =>
    have hc : c.toNat < 128 := h c List.mem_cons_self
    have ih := ih fun d hd => h d (List.mem_cons_of_mem _ hd)
    have hbyte : String.utf8EncodeChar c = [UInt8.ofNat c.toNat] := by
      unfold String.utf8EncodeChar
      exact if_pos (Nat.le_of_lt_succ hc)
    have hlead : (UInt8.ofNat c.toNat).toNat = c.toNat := by
      rw [UInt8.toNat_ofNat']
      omega
    have hfirst : firstChar? (UInt8.ofNat c.toNat) (cs.flatMap String.utf8EncodeChar) =
        some (c, 0) := by
      simp only [firstChar?, hlead]
      rw [if_pos hc, Char.ofNat_toNat]
    rw [List.flatMap_cons, hbyte, List.singleton_append, ofUtf8From, hfirst]
    simp only
    rw [ih, List.map_cons]

/-! ## Payloads -/

/-- Only the digits of zero start with a zero. -/
theorem eq_zero_of_head?_toDigits {n : Nat} (h : (Nat.toDigits 10 n).head? = some '0') : n = 0 := by
  induction n using Nat.strong_induction_on with
  | _ n ih =>
    by_cases hn : n < 10
    · rw [Nat.toDigits_of_lt_base hn] at h
      interval_cases n <;> simp_all
    · rw [Nat.toDigits_of_base_le (by decide) (by omega),
        List.head?_append_of_ne_nil _ Nat.toDigits_ne_nil] at h
      have hquotient := ih (n / 10) (by omega) h
      omega

namespace JsonToken

theorem numberRun_digits {digits : List Char} (hdigits : ∀ c ∈ digits, Number.isDigit c)
    {c : Char} (hc : inNumber c = false) (rest : List (Option Char)) :
    numberRun (digits.map some ++ some c :: rest) = digits := by
  induction digits with
  | nil => simp [numberRun, hc]
  | cons d digits ih =>
    have hd : inNumber d := by simp [inNumber, hdigits d List.mem_cons_self]
    rw [List.map_cons, List.cons_append, numberRun, if_pos hd,
      ih fun e he => hdigits e (List.mem_cons_of_mem _ he)]

/-- A run of digits without a leading zero is an integer. -/
theorem numberAt_digits {digits : List Char} (hne : digits ≠ [])
    (hdigits : ∀ c ∈ digits, Number.isDigit c)
    (hzero : digits.head? = some '0' → digits.length = 1) :
    numberAt digits = some (numberValue false digits none none, digits.length) := by
  obtain ⟨d, ds, rfl⟩ := List.exists_cons_of_ne_nil hne
  have hminus : d ≠ '-' := by
    rintro rfl
    exact absurd (hdigits '-' List.mem_cons_self) (by decide)
  have htake : (d :: ds).takeWhile Number.isDigit = d :: ds := List.takeWhile_eq_self_iff.2 hdigits
  have hdrop : (d :: ds).dropWhile Number.isDigit = [] := List.dropWhile_eq_nil_iff.2 hdigits
  have hlead : ¬((d :: ds).isEmpty || ((d :: ds).head? = some '0' && 1 < (d :: ds).length)) := by
    intro h
    simp only [List.isEmpty_cons, Bool.false_or, Bool.and_eq_true, decide_eq_true_eq] at h
    have hone := hzero h.1
    omega
  unfold numberAt
  split
  next negative cs hsign =>
    have hsame : negative = false ∧ cs = d :: ds := by
      split at hsign
      next cs' hcons => exact absurd (List.cons.inj hcons).1 hminus
      next =>
        cases hsign
        exact ⟨rfl, rfl⟩
    obtain ⟨rfl, rfl⟩ := hsame
    simp only [htake, hdrop, if_neg hlead]
    simp


/-- What a token has taken is passed over. -/
theorem scan_length_append (cs rest : List (Option Char)) :
    scan cs.length (cs ++ rest) = scan 0 rest := by
  induction cs with
  | nil => rfl
  | cons c cs ih => exact ih

/-- The digits of a number are read as the number, if it fits 64 bits. -/
theorem scan_toDigits {n : Nat} (hn : n ≤ Cursor.maxOffset) {c : Char} (hc : inNumber c = false)
    (rest : List (Option Char)) :
    scan 0 ((Nat.toDigits 10 n).map some ++ some c :: rest) =
      .number (some (.int n)) :: scan 0 (some c :: rest) := by
  have hdigits : ∀ d ∈ Nat.toDigits 10 n, Number.isDigit d := fun d hd =>
    Nat.isDigit_of_mem_toDigits (by decide) (by decide) hd
  have hzero : (Nat.toDigits 10 n).head? = some '0' → (Nat.toDigits 10 n).length = 1 := by
    intro h
    rw [eq_zero_of_head?_toDigits h]
    rfl
  have hvalue : numberValue false (Nat.toDigits 10 n) none none = some (.int n) := by
    have hof : Number.value (Nat.toDigits 10 n) = n := Nat.ofDigitChars_ten_toDigits
    simp only [numberValue, hof]
    rw [if_neg (by decide)]
    exact if_pos hn
  have hat := numberAt_digits Nat.toDigits_ne_nil hdigits hzero
  have hrun := numberRun_digits hdigits hc rest
  obtain ⟨d, ds, hds⟩ := List.exists_cons_of_ne_nil (Nat.toDigits_ne_nil (b := 10) (n := n))
  rw [hvalue, hds] at hat
  rw [hds] at hrun hdigits ⊢
  have hd : Number.isDigit d := hdigits d List.mem_cons_self
  have hlexeme : lexeme d (ds.map some ++ some c :: rest) =
      (.number (some (.int n)), ds.length) := by
    unfold lexeme
    split
    case h_11 =>
      rw [if_pos (by simp [hd]), ← List.cons_append, ← List.map_cons, hrun, hat]
      rfl
    -- Every other token starts with a character that is no digit.
    all_goals exact absurd hd (by decide)
  have hblank : ¬isBlank (some d) := by
    intro h
    simp only [isBlank, Bool.or_eq_true, decide_eq_true_eq, Option.some.injEq] at h
    rcases h with ((rfl | rfl) | rfl) | rfl <;> exact absurd hd (by decide)
  rw [List.map_cons, List.cons_append, scan, if_neg hblank, hlexeme]
  simp only
  have hpassed := scan_length_append (ds.map some) (some c :: rest)
  rw [List.length_map] at hpassed
  rw [hpassed]

end JsonToken

namespace Cursor

theorem toList_payload (n : Nat) :
    (payload n).toList = "\x7b\"offset\":".toList ++ (Nat.toDigits 10 n ++ ['\x7d']) := by
  have hnumber : (toString (n : Int)).toList = Nat.toDigits 10 n := by
    simp [toString, Int.repr, Nat.repr]
  have hkey : Json.quote offsetKey = "\"offset\"" := by decide +kernel
  simp only [payload, Json.write, Json.writeMembers, Json.nat, Json.writeNumber, hkey,
    String.toList_append, hnumber]
  rfl

theorem ofChars_payload {n : Nat} (hn : n ≤ maxOffset) :
    JsonToken.ofChars ((payload n).toList.map some) =
      [.openBrace, .text (some offsetKey), .colon, .number (some (.int n)), .closeBrace] := by
  have hhead : ∀ rest : List (Option Char),
      JsonToken.scan 0 ("\x7b\"offset\":".toList.map some ++ rest) =
        .openBrace :: .text (some offsetKey) :: .colon :: JsonToken.scan 0 rest :=
    fun rest => rfl
  rw [toList_payload, List.map_append, List.map_append, JsonToken.ofChars, hhead]
  exact congrArg (fun tokens => .openBrace :: .text (some offsetKey) :: .colon :: tokens)
    (JsonToken.scan_toDigits hn (c := '\x7d') (by decide) [])

theorem payloadOffset?_payload {n : Nat} (hn : n ≤ maxOffset) :
    payloadOffset? (JsonToken.ofChars ((payload n).toList.map some)) = some n := by
  rw [ofChars_payload hn]
  have hrange : (0 ≤ (n : Int) && (n : Int).toNat ≤ maxOffset) = true := by
    simpa using hn
  exact if_pos hrange

theorem isAscii_payload (n : Nat) : ∀ c ∈ (payload n).toList, c.toNat < 128 := by
  have hhead : ∀ c ∈ "\x7b\"offset\":".toList, c.toNat < 128 := by simp
  intro c hc
  rw [toList_payload, List.mem_append, List.mem_append] at hc
  rcases hc with hc | hc | hc
  · exact hhead c hc
  · have hdigit := Nat.isDigit_of_mem_toDigits (by decide) (by decide) hc
    simp only [Char.isDigit, Bool.and_eq_true, decide_eq_true_eq] at hdigit
    exact Nat.lt_of_le_of_lt (UInt32.le_iff_toNat_le.1 hdigit.2) (by decide)
  · rw [List.mem_singleton.1 hc]
    decide

theorem isBlank_of_mem_encode {n : Nat} {c : Char} (h : c ∈ (encode n).toList) :
    Text.isBlank c = false := by
  rw [encode, String.toList_ofList] at h
  exact Text.Base64.isBlank_of_mem_encode h

/-- An offset is read back from its cursor, whatever blanks stand around it. -/
theorem decode_of_trimChars {n : Nat} (hn : n ≤ maxOffset) {cursor : String}
    (h : Text.trimChars cursor.toList = (encode n).toList) : decode cursor = .ok n := by
  have hbytes : Text.Base64.decode? (Text.trimChars cursor.toList) =
      some (Text.utf8 (payload n)) := by
    rw [h, encode, String.toList_ofList, Text.Base64.decode?_encode]
  have hoffset : payloadOffset? (JsonToken.ofChars (Text.ofUtf8 (Text.utf8 (payload n)))) =
      some n := by
    rw [Text.ofUtf8_utf8 (isAscii_payload n), payloadOffset?_payload hn]
  rw [decode, hbytes]
  simp only [hoffset]

theorem trimChars_encode (n : Nat) : Text.trimChars (encode n).toList = (encode n).toList :=
  Text.trimChars_of_no_blank fun _ hc => isBlank_of_mem_encode hc

theorem decode_encode {n : Nat} (hn : n ≤ maxOffset) : decode (encode n) = .ok n :=
  decode_of_trimChars hn (trimChars_encode n)

theorem encode_ne_nil (n : Nat) : (encode n).toList ≠ [] := by
  intro h
  rw [encode, String.toList_ofList] at h
  have hbytes := Text.Base64.decode?_encode (Text.utf8 (payload n))
  rw [h] at hbytes
  have hchars := Text.ofUtf8_utf8 (isAscii_payload n)
  rw [← Option.some.inj hbytes, toList_payload] at hchars
  exact absurd hchars (by simp [Text.ofUtf8, Text.ofUtf8From])

theorem payload_eq (n : Nat) : payload n = "\x7b\"offset\":" ++ toString n ++ "\x7d" := by
  apply String.toList_inj.1
  rw [toList_payload, String.toList_append, String.toList_append, List.append_assoc]
  simp [toString, Nat.repr]

/-- An offset is read back from its cursor, whatever blanks stand around it. The cursor is a text of
signs that are safe in a URL, and of all texts it is the one that base64 reads as the payload. -/
theorem decode_blanks_encode {n : Nat} (hn : n ≤ maxOffset) {before after : String}
    (hbefore : ∀ c ∈ before.toList, Text.isBlank c) (hafter : ∀ c ∈ after.toList, Text.isBlank c) :
    decode (before ++ encode n ++ after) = .ok n ∧
    encode n ≠ "" ∧
    (∀ c ∈ (encode n).toList, Text.Base64.isSign c) ∧
    ∀ signs, Text.Base64.decode? signs =
      some (Text.utf8 ("\x7b\"offset\":" ++ toString n ++ "\x7d")) ↔ signs = (encode n).toList := by
  have htrim : Text.trimChars (before ++ encode n ++ after).toList = (encode n).toList := by
    rw [String.toList_append, String.toList_append]
    exact Text.trimChars_blanks hbefore hafter fun c hc => isBlank_of_mem_encode hc
  refine ⟨decode_of_trimChars hn htrim, ?_, ?_, fun signs => ?_⟩
  · intro hempty
    exact encode_ne_nil n (by rw [hempty]; rfl)
  · intro c hc
    rw [encode, String.toList_ofList] at hc
    exact Text.Base64.isSign_of_mem_encode hc
  · rw [← payload_eq, Text.Base64.decode?_eq_some_iff, encode, String.toList_ofList]

/-- The greatest offset, between blanks that are not all ASCII. -/
theorem decode_blanks_encode_greatest :
    encode 0xffffffffffffffff = "eyJvZmZzZXQiOjE4NDQ2NzQ0MDczNzA5NTUxNjE1fQ" ∧
    decode ("\t\u3000" ++ encode 0xffffffffffffffff ++ "\n\u00a0") = .ok 0xffffffffffffffff := by
  have hbefore : ∀ c ∈ "\t\u3000".toList, Text.isBlank c :=
    List.all_eq_true.1 (by decide +kernel)
  have hafter : ∀ c ∈ "\n\u00a0".toList, Text.isBlank c := List.all_eq_true.1 (by decide +kernel)
  exact ⟨by decide +kernel, (decode_blanks_encode (Nat.le_refl _) hbefore hafter).1⟩

end Cursor

end NetQuery
