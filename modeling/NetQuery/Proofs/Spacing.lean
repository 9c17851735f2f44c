import NetQuery.Proofs.Positions
import NetQuery.Proofs.Recasing

/-!
# Blanks between tokens

The lexer looks ahead by a character or two, but never past a blank: whatever token stands before a
blank is the token that would stand there at the end of the text. So a text may be cut at blanks
that stand between tokens, and its parts read on their own. What is read after the cut is the same
but for its places, which are moved by all that stands before it. Hence it does not matter to a
query which blanks stand between two tokens, as long as there is one.
-/

namespace NetQuery

/-- A run of blanks that is not empty. -/
def Text.IsGap (w : String) : Prop := w.toList ≠ [] ∧ ∀ c ∈ w.toList, isBlank c

/-- The place of the same character once `before` is put before the text. Bytes and lines add up,
and a column does on the line that `before` ends in. -/
def Position.movedBy (before : List Char) (p : Position) : Position where
  offset := (String.ofList before).utf8ByteSize + p.offset
  line := before.count '\n' + p.line
  column :=
    if p.line = 1 then (before.reverse.takeWhile (· ≠ '\n')).length + p.column else p.column

/-- The tokens with their places moved. -/
def TokenStream.movedBy (before : List Char) (stream : TokenStream) : TokenStream where
  tokens := stream.tokens.map fun t => ⟨t.kind, t.position.movedBy before⟩
  finish := stream.finish.movedBy before

/-- The error with its place moved. -/
def LexicalError.movedBy (before : List Char) (e : LexicalError) : LexicalError :=
  ⟨e.position.movedBy before, e.fault⟩

/-- The tokens of a text, and then those of what comes after it. -/
def TokenStream.followedBy (first rest : TokenStream) : TokenStream :=
  ⟨first.tokens ++ rest.tokens, rest.finish⟩

/-- The places where a token starts, and the end. -/
def TokenStream.places (stream : TokenStream) : List Position :=
  stream.tokens.map Token.position ++ [stream.finish]

/-! ## Moving places -/

namespace Position

theorem start_eq : start = ofBefore [] := rfl

theorem movedBy_after (before : List Char) {p : Position} (hp : 1 ≤ p.line) (c : Char) :
    (p.after c).movedBy before = (p.movedBy before).after c := by
  by_cases hc : c = '\n'
  · have hline : p.line + 1 ≠ 1 := by omega
    simp only [after, movedBy, hc, if_true, hline, if_false, Nat.add_assoc]
  · by_cases hline : p.line = 1
    · simp only [after, movedBy, hc, if_false, hline, if_true, Nat.add_assoc]
    · simp only [after, movedBy, hc, if_false, hline, Nat.add_assoc]

/-- Moving a place is counting from an earlier start. -/
theorem movedBy_ofBefore (before cs : List Char) :
    (ofBefore cs).movedBy before = ofBefore (before ++ cs) := by
  induction cs using List.reverseRecOn with
  | nil => simp [movedBy, ofBefore, Nat.add_comm]
  | append_singleton cs c ih =>
    have hline : 1 ≤ (ofBefore cs).line := Nat.le_add_right 1 _
    rw [← after_ofBefore, movedBy_after before hline, ih, after_ofBefore, List.append_assoc]

theorem offset_lt_of_cons (before : List Char) (c : Char) (cs : List Char) :
    (ofBefore before).offset < (ofBefore (before ++ c :: cs)).offset := by
  have hpos := c.utf8Size_pos
  simp only [ofBefore, String.ofList_append, String.ofList_cons, String.utf8ByteSize_append,
    String.utf8ByteSize_singleton]
  omega

theorem one_le_line_after {p : Position} (hp : 1 ≤ p.line) (c : Char) : 1 ≤ (p.after c).line := by
  unfold after
  split
  · exact Nat.le_add_left 1 _
  · exact hp

end Position

namespace Lexer

/-- A text is read the same wherever it stands, but for its places. -/
theorem scan_movedBy (before : List Char) {taken : Nat} {p : Position} (hp : 1 ≤ p.line)
    (cs : List Char) : scan taken (p.movedBy before) cs =
      ((scan taken p cs).map (·.movedBy before)).mapError (·.movedBy before) := by
  fun_induction scan taken p cs with
  | case1 => rfl
  | case2 p taken c cs ih =>
    rw [scan, ← Position.movedBy_after before hp]
    exact ih (Position.one_le_line_after hp c)
  | case3 p c cs hblank ih =>
    rw [scan, if_pos hblank, ← Position.movedBy_after before hp]
    exact ih (Position.one_le_line_after hp c)
  | case4 p c cs hblank fault hl =>
    rw [scan, if_neg hblank, hl]
    rfl
  | case5 p c cs hblank l hl e he ih =>
    rw [scan, if_neg hblank, hl]
    simp only
    rw [← Position.movedBy_after before hp, ih (Position.one_le_line_after hp c), he]
    rfl
  | case6 p c cs hblank l hl stream hstream ih =>
    rw [scan, if_neg hblank, hl]
    simp only
    rw [← Position.movedBy_after before hp, ih (Position.one_le_line_after hp c), hstream]
    rfl

/-! ## Tokens before a blank -/

section Lookahead

variable {cs x : List Char} {c quote : Char} {l : Lexeme}

theorem isDigit_eq_false_of_isBlank (h : Text.isBlank c) : Number.isDigit c = false := by
  by_contra hdigit
  have hblank := isBlank_eq_false_of_continuesWord
    (continuesWord_of_isDigit (Bool.not_eq_false _ ▸ hdigit))
  exact absurd (hblank.symm.trans h) (by decide)

theorem continuesWord_eq_false_of_isBlank (h : Text.isBlank c) : continuesWord c = false := by
  by_contra hword
  have hblank := isBlank_eq_false_of_continuesWord (Bool.not_eq_false _ ▸ hword)
  exact absurd (hblank.symm.trans h) (by decide)

/-- A text that starts with blanks has a blank for its first character. -/
theorem isBlank_head?_append {w : List Char} (hw : ∀ d ∈ w, Text.isBlank d) (hne : w ≠ [])
    (b : List Char) : ∀ d ∈ (w ++ b).head?, Text.isBlank d := by
  rw [List.head?_append_of_ne_nil _ hne]
  exact fun d hd => hw d (List.mem_of_mem_head? hd)

/-- A text literal ends with the quote that closes it. -/
theorem textTail_eq_some {value : List Char} {n : Nat} (h : textTail quote cs = some (value, n)) :
    ∃ inside after, cs = inside ++ quote :: after ∧ n = inside.length + 1 := by
  fun_induction textTail quote cs generalizing value n with
  | case1 => cases h
  | case2 d cs ih =>
    obtain ⟨⟨value', n'⟩, htail, hr⟩ := Option.map_eq_some_iff.1 h
    cases hr
    obtain ⟨inside, after, rfl, rfl⟩ := ih htail
    exact ⟨'\\' :: d :: inside, after, rfl, rfl⟩
  | case3 cs hne =>
    cases h
    exact ⟨[], cs, rfl, rfl⟩
  | case4 d cs hslash hquote ih =>
    obtain ⟨⟨value', n'⟩, htail, hr⟩ := Option.map_eq_some_iff.1 h
    cases hr
    obtain ⟨inside, after, rfl, rfl⟩ := ih htail
    exact ⟨d :: inside, after, rfl, rfl⟩

/-- What follows a text literal does not matter to it. -/
theorem textTail_append_iff (hquote : isQuote quote) (x : List Char) {value : List Char}
    {n : Nat} : textTail quote cs = some (value, n) ↔
      textTail quote (cs ++ x) = some (value, n) ∧ n ≤ cs.length := by
  have htake : n ≤ cs.length → cs.take n = (cs ++ x).take n := fun hle =>
    (List.take_append_of_le_length hle).symm
  constructor
  · intro h
    obtain ⟨inside, after, rfl, rfl⟩ := textTail_eq_some h
    have hle : inside.length + 1 ≤ (inside ++ quote :: after).length := by simp
    exact ⟨textTail_congr hquote h (htake hle), hle⟩
  · rintro ⟨h, hle⟩
    exact textTail_congr hquote h (htake hle).symm

/-- A run of digits and points ends before a blank. -/
theorem numberRun_append (hx : ∀ d ∈ x.head?, Text.isBlank d) (cs : List Char) :
    numberRun (cs ++ x) = numberRun cs := by
  have hdigit : ∀ d ∈ x.head?, Number.isDigit d = false := fun d hd =>
    isDigit_eq_false_of_isBlank (hx d hd)
  have hnone : numberRun x = [] := by
    have hstop : ∀ d ∈ x.head?, Number.isDigit d = false ∧ d ≠ '.' := by
      refine fun d hd => ⟨hdigit d hd, ?_⟩
      rintro rfl
      exact absurd (hx _ hd) (by decide)
    exact @numberRun_digits [] x (by simp) hstop
  fun_induction numberRun cs with
  | case1 => exact hnone
  | case2 c hc =>
    cases x with
    | nil => simp [numberRun, hc]
    | cons d x =>
      simp [numberRun, hc, hdigit d rfl, hnone]
  | case3 c hc =>
    cases x with
    | nil => simp [numberRun, hc]
    | cons d x =>
      simp [numberRun, hc, hdigit d rfl]
  | case4 c d cs hc ih =>
    rw [List.cons_append, List.cons_append, numberRun, if_pos hc, ← List.cons_append, ih]
  | case5 c d cs hc => rw [List.cons_append, List.cons_append, numberRun, if_neg hc]

theorem takeWhile_continuesWord_append (hx : ∀ d ∈ x.head?, Text.isBlank d) (cs : List Char) :
    (cs ++ x).takeWhile continuesWord = cs.takeWhile continuesWord := by
  have hnone : x.takeWhile continuesWord = [] := by
    cases x with
    | nil => rfl
    | cons d x => rw [List.takeWhile_cons, continuesWord_eq_false_of_isBlank (hx d rfl)]; rfl
  rw [List.takeWhile_append, hnone, List.append_nil]
  split
  next hall => exact (List.IsPrefix.eq_of_length (List.takeWhile_prefix _) hall).symm
  next => rfl

/-- Only a text in quotes reads past a blank. -/
theorem lexeme_append (hx : ∀ d ∈ x.head?, Text.isBlank d) (hc : isQuote c = false)
    (cs : List Char) : lexeme c (cs ++ x) = lexeme c cs := by
  have hhead : ∀ d, Text.isBlank d = false →
      ((cs ++ x).head? = some d ↔ cs.head? = some d) := by
    intro d hd
    cases cs with
    | nil =>
      refine iff_of_false (fun h => ?_) nofun
      exact absurd (hd.symm.trans (hx d h)) (by decide)
    | cons e cs => rfl
  have hany : (cs ++ x).head?.any Number.isDigit = cs.head?.any Number.isDigit := by
    cases cs with
    | nil =>
      cases x with
      | nil => rfl
      | cons d x => exact isDigit_eq_false_of_isBlank (hx d rfl)
    | cons e cs => rfl
  have hrun := numberRun_append hx
  rw [isQuote] at hc
  simp only [lexeme, hc, hhead '=' (by decide), hhead '>' (by decide), hany, hrun cs,
    takeWhile_continuesWord_append hx, ← List.cons_append, hrun (c :: cs), Bool.false_eq_true,
    if_false]

theorem length_numberRun_le (cs : List Char) : (numberRun cs).length ≤ cs.length := by
  rw [← take_numberRun]
  exact List.length_take_le' _ _

/-- What starts with a quote is a text literal. -/
theorem lexeme_of_quote (hc : isQuote c) : lexeme c cs = .ok l ↔
    ∃ value, textTail c cs = some (value, l.more) ∧ l.kind = .text (String.ofList value) := by
  obtain ⟨kind, more⟩ := l
  rw [isQuote] at hc
  simp only [lexeme, hc, if_true]
  cases textTail c cs with
  | none => simp
  | some r =>
    obtain ⟨value, n⟩ := r
    simp only [Except.ok.injEq, Lexeme.mk.injEq, Option.some.injEq, Prod.mk.injEq]
    constructor
    · rintro ⟨rfl, rfl⟩
      exact ⟨value, ⟨rfl, rfl⟩, rfl⟩
    · rintro ⟨value, ⟨rfl, rfl⟩, rfl⟩
      exact ⟨rfl, rfl⟩

/-- A token has no more characters than there are. -/
theorem more_le_of_lexeme (h : lexeme c cs = .ok l) : l.more ≤ cs.length := by
  have hone : ∀ d, cs.head? = some d → 1 ≤ cs.length := by
    intro d hd
    obtain ⟨cs, rfl⟩ := List.head?_eq_some_iff.1 hd
    exact Nat.succ_pos _
  revert h
  fun_cases lexeme c cs with
  | case1 _ value n htail =>
    intro h
    cases h
    obtain ⟨inside, after, rfl, rfl⟩ := textTail_eq_some htail
    simp
  | case15 =>
    intro h
    rw [more_of_map h]
    exact length_numberRun_le cs
  | case16 =>
    intro h
    rw [more_of_map h]
    exact Nat.sub_le_of_le_add (length_numberRun_le (c :: cs))
  | case17 =>
    intro h
    obtain rfl := Except.ok.inj h
    exact (List.takeWhile_prefix continuesWord).length_le
  | _ =>
    intro h
    cases h
    all_goals first | exact Nat.zero_le _ | exact hone _ (by assumption)

/-- A token that ends before a blank is read there as at the end of the text. -/
theorem lexeme_append_iff (hx : ∀ d ∈ x.head?, Text.isBlank d) (cs : List Char) :
    lexeme c cs = .ok l ↔ lexeme c (cs ++ x) = .ok l ∧ l.more ≤ cs.length := by
  cases hc : isQuote c with
  | true =>
    rw [lexeme_of_quote hc, lexeme_of_quote hc]
    constructor
    · rintro ⟨value, htail, hkind⟩
      obtain ⟨htail, hle⟩ := (textTail_append_iff hc x).1 htail
      exact ⟨⟨value, htail, hkind⟩, hle⟩
    · rintro ⟨⟨value, htail, hkind⟩, hle⟩
      exact ⟨value, (textTail_append_iff hc x).2 ⟨htail, hle⟩, hkind⟩
  | false =>
    rw [lexeme_append hx hc]
    exact ⟨fun h => ⟨h, more_le_of_lexeme h⟩, And.left⟩

/-- No token ends in a blank. -/
theorem more_le_of_blanks {w b : List Char} (hw : ∀ d ∈ w, Text.isBlank d) (hne : w ≠ [])
    (h : lexeme c (cs ++ (w ++ b)) = .ok l) (hle : l.more ≤ (cs ++ w).length) :
    l.more ≤ cs.length := by
  cases hc : isQuote c with
  | true =>
    obtain ⟨value, htail, -⟩ := (lexeme_of_quote hc).1 h
    obtain ⟨inside, after, hcs, hmore⟩ := textTail_eq_some htail
    by_contra hlt
    -- The quote that closes the literal would be one of the blanks.
    have hget : (cs ++ (w ++ b))[inside.length]? = some c := by simp [hcs]
    have hlength : cs.length ≤ inside.length ∧ inside.length - cs.length < w.length := by
      simp only [List.length_append] at hle
      omega
    rw [List.getElem?_append_right hlength.1, List.getElem?_append_left hlength.2] at hget
    have hquote := isQuote_eq_false_of (by decide) (by decide) (hw c (List.mem_of_getElem? hget))
    exact absurd (hc.symm.trans hquote) (by decide)
  | false =>
    rw [lexeme_append (isBlank_head?_append hw hne b) hc] at h
    exact more_le_of_lexeme h

end Lookahead

/-! ## Texts before a blank -/

/-- What stands after the blanks is read from there on. -/
theorem scan_blanks {w : List Char} (hw : ∀ c ∈ w, Text.isBlank c) (mid b : List Char) :
    scan 0 (.ofBefore mid) (w ++ b) = scan 0 (.ofBefore (mid ++ w)) b := by
  induction w generalizing mid with
  | nil => rw [List.nil_append, List.append_nil]
  | cons c w ih =>
    obtain ⟨hc, hw⟩ := List.forall_mem_cons.1 hw
    rw [List.cons_append, scan, if_pos hc, Position.after_ofBefore, ih hw, List.append_assoc,
      List.singleton_append]

/-- A text is read to its end before a blank, and then what follows is read. -/
theorem scan_append {x a : List Char} (hx : ∀ c ∈ x.head?, Text.isBlank c) {taken : Nat}
    {p : Position} {stream : TokenStream} (htaken : taken ≤ a.length)
    (h : scan taken p a = .ok stream) :
    scan taken p (a ++ x) = (scan 0 stream.finish x).map stream.followedBy := by
  fun_induction scan taken p a generalizing stream with
  | case1 taken p =>
    cases h
    obtain rfl : taken = 0 := Nat.le_zero.1 htaken
    rw [List.nil_append]
    cases scan 0 p x <;> rfl
  | case2 p taken c cs ih =>
    rw [List.cons_append, scan]
    exact ih (Nat.le_of_succ_le_succ htaken) h
  | case3 p c cs hblank ih =>
    rw [List.cons_append, scan, if_pos hblank]
    exact ih (Nat.zero_le _) h
  | case4 => cases h
  | case5 => cases h
  | case6 p c cs hblank l hl stream' hstream ih =>
    cases h
    obtain ⟨hl', hle⟩ := (lexeme_append_iff hx cs).1 hl
    rw [List.cons_append, scan, if_neg hblank, hl']
    simp only
    rw [ih hle hstream]
    cases scan 0 stream'.finish x <;> rfl

/-- One step: the token that a text starts with, and the tokens of the rest. -/
theorem scan_token_iff {c : Char} {cs : List Char} {p : Position} {stream : TokenStream}
    (hc : Text.isBlank c = false) : scan 0 p (c :: cs) = .ok stream ↔
      ∃ l rest, lexeme c cs = .ok l ∧ scan l.more (p.after c) cs = .ok rest ∧
        stream = ⟨⟨l.kind, p⟩ :: rest.tokens, rest.finish⟩ := by
  rw [scan, if_neg (by simp [hc])]
  cases lexeme c cs with
  | error fault => simp
  | ok l =>
    simp only [Except.ok.injEq, exists_and_left, exists_eq_left']
    cases scan l.more (p.after c) cs with
    | error e => simp
    | ok rest => simp [eq_comm]

/-- The place after all of a text. -/
theorem advance_ofBefore (mid cs : List Char) :
    (Position.ofBefore mid).advance cs = .ofBefore (mid ++ cs) := by
  induction cs generalizing mid with
  | nil => rw [List.append_nil]; rfl
  | cons c cs ih =>
    have hstep := ih (mid ++ [c])
    rw [← Position.after_ofBefore, List.append_assoc] at hstep
    exact hstep

/-- No token after the characters that have been taken starts before they end. -/
theorem offset_le_of_scan {mid cs : List Char} {taken : Nat} {stream : TokenStream} {p : Position}
    (h : scan taken (.ofBefore mid) cs = .ok stream) (hp : p ∈ stream.places) :
    (Position.ofBefore (mid ++ cs.take taken)).offset ≤ p.offset := by
  rw [scan_taken, advance_ofBefore] at h
  have hoffsets : stream.offsets = stream.places.map Position.offset := by
    simp [TokenStream.offsets, TokenStream.places]
  exact (scan_placed rfl h).least _ (hoffsets ▸ List.mem_map_of_mem hp)

/-- If a token starts right after some blanks, or the text ends there, then all that stands before
the blanks is read on its own. -/
theorem scan_before_gap {w b : List Char} (hw : ∀ c ∈ w, Text.isBlank c) (hne : w ≠ [])
    {before a : List Char} {taken : Nat} {stream : TokenStream} (htaken : taken ≤ a.length)
    (h : scan taken (.ofBefore before) (a ++ (w ++ b)) = .ok stream)
    (hplace : .ofBefore (before ++ (a ++ w)) ∈ stream.places) :
    ∃ stream', scan taken (.ofBefore before) a = .ok stream' := by
  induction a generalizing taken before stream with
  | nil => exact ⟨_, rfl⟩
  | cons c cs ih =>
    have hmid : before ++ (c :: cs ++ w) = before ++ [c] ++ (cs ++ w) := by simp
    rw [List.cons_append] at h
    cases taken with
    | succ taken =>
      rw [scan, Position.after_ofBefore] at h ⊢
      exact ih (Nat.le_of_succ_le_succ htaken) h (hmid ▸ hplace)
    | zero =>
      cases hblank : Text.isBlank c with
      | true =>
        rw [scan, if_pos hblank, Position.after_ofBefore] at h ⊢
        exact ih (Nat.zero_le _) h (hmid ▸ hplace)
      | false =>
        obtain ⟨l, rest, hl, hrest, rfl⟩ := (scan_token_iff hblank).1 h
        rw [Position.after_ofBefore] at hrest
        have hlater : .ofBefore (before ++ [c] ++ (cs ++ w)) ∈ rest.places := by
          rcases List.mem_cons.1 (hmid ▸ hplace) with heq | hmem
          · have hlt := Position.offset_lt_of_cons before c (cs ++ w)
            rw [List.append_assoc, List.singleton_append] at heq
            rw [heq] at hlt
            exact absurd hlt (Nat.lt_irrefl _)
          · exact hmem
        -- The token ends before the place after the blanks, and so before the blanks.
        have hend : l.more ≤ (cs ++ w).length := by
          by_contra hlt
          have hoffset := offset_le_of_scan hrest hlater
          have hlength := more_le_of_lexeme hl
          rw [← List.append_assoc, List.take_append, List.take_of_length_le (by omega)] at hoffset
          obtain ⟨d, ds, hds⟩ : ∃ d ds, b.take (l.more - (cs ++ w).length) = d :: ds := by
            refine List.exists_cons_of_ne_nil fun hnil => ?_
            have hzero := congrArg List.length hnil
            simp only [List.length_take, List.length_append, List.length_nil] at hzero hlength hlt
            omega
          have hlater := Position.offset_lt_of_cons (before ++ [c] ++ (cs ++ w)) d ds
          rw [hds, ← List.append_assoc] at hoffset
          exact absurd hlater (Nat.not_lt.2 hoffset)
        have hmore := more_le_of_blanks hw hne hl hend
        have hl' := (lexeme_append_iff (isBlank_head?_append hw hne b) cs).2 ⟨hl, hmore⟩
        obtain ⟨stream', hstream'⟩ := ih hmore hrest hlater
        rw [← Position.after_ofBefore] at hstream'
        exact ⟨_, (scan_token_iff hblank).2 ⟨l, stream', hl', hstream', rfl⟩⟩

end Lexer

/-! ## Whole texts -/

section Text

variable {a w w' : String} {stream : TokenStream}

/-- A text that comes after `before` is read as it would be at the start. -/
theorem scan_ofBefore (before : List Char) (b : String) :
    Lexer.scan 0 (.ofBefore before) b.toList =
      ((tokenize b).map (·.movedBy before)).mapError (·.movedBy before) := by
  have hstart : Position.start.movedBy before = .ofBefore before := by
    rw [Position.start_eq, Position.movedBy_ofBefore, List.append_nil]
  rw [← hstart]
  exact Lexer.scan_movedBy before (Nat.le_refl 1) b.toList

/-- A text is read up to a gap on its own, and so is what follows, but for its places. -/
theorem tokenize_append_gap (ha : tokenize a = .ok stream) (hw : Text.IsGap w) (b : String) :
    tokenize (a ++ w ++ b) =
      ((tokenize b).map fun rest => stream.followedBy (rest.movedBy (a ++ w).toList)).mapError
        (·.movedBy (a ++ w).toList) := by
  obtain ⟨hne, hblank⟩ := hw
  have hfinish : stream.finish = .ofBefore a.toList := (tokenize_placed ha).finish
  have happend := Lexer.scan_append (Lexer.isBlank_head?_append hblank hne b.toList)
    (Nat.zero_le _) ha
  rw [hfinish, Lexer.scan_blanks hblank, scan_ofBefore] at happend
  rw [tokenize, String.toList_append, String.toList_append, List.append_assoc, happend]
  cases tokenize b <;> rfl

/-- The tokens around a gap, without their places, do not depend on the gap. -/
theorem tokenize_other_gap (ha : tokenize a = .ok stream) (hw : Text.IsGap w)
    (hw' : Text.IsGap w') {b : String} {whole : TokenStream}
    (h : tokenize (a ++ w ++ b) = .ok whole) : ∃ whole', tokenize (a ++ w' ++ b) = .ok whole' ∧
      whole'.tokens.map Token.kind = whole.tokens.map Token.kind := by
  rw [tokenize_append_gap ha hw] at h
  obtain ⟨rest, hrest, rfl⟩ := map_eq_ok_iff.1 (mapError_eq_ok_iff.1 h)
  refine ⟨stream.followedBy (rest.movedBy (a ++ w').toList), ?_, ?_⟩
  · rw [tokenize_append_gap ha hw', hrest]
    rfl
  · simp [TokenStream.followedBy, TokenStream.movedBy]

theorem parse_other_gap (ha : tokenize a = .ok stream) (hw : Text.IsGap w) (hw' : Text.IsGap w')
    {b : String} {q : Query} (h : Query.parse (a ++ w ++ b) = .ok q) :
    Query.parse (a ++ w' ++ b) = .ok q := by
  unfold Query.parse at h ⊢
  split at h
  next => cases h
  next whole hwhole =>
    obtain ⟨whole', hwhole', hkinds⟩ := tokenize_other_gap ha hw hw' hwhole
    obtain ⟨hderived, hnesting⟩ := Parser.query_sound (TokenStream.query_eq_ok.1 h)
    rw [hwhole']
    exact TokenStream.query_eq_ok.2 (Parser.query_complete hderived hnesting hkinds)

end Text

/-- Texts may be cut at blanks. The tokens of two texts with a gap between them are those of the
first and then those of the second, moved by all that stands before it, or the error of the second,
moved likewise. And if a token starts right after a gap, or the text ends there, then any other gap
in its place leaves the query that is read as it is. -/
theorem tokenize_gap :
    (∀ (a w b : String) (stream : TokenStream), tokenize a = .ok stream → Text.IsGap w →
      tokenize (a ++ w ++ b) =
        ((tokenize b).map fun rest => stream.followedBy (rest.movedBy (a ++ w).toList)).mapError
          (·.movedBy (a ++ w).toList)) ∧
    ∀ (a w w' b : String) (stream : TokenStream), tokenize (a ++ w ++ b) = .ok stream →
      Text.IsGap w → Text.IsGap w' → .ofBefore (a ++ w).toList ∈ stream.places →
      ∀ q, Query.parse (a ++ w ++ b) = .ok q ↔ Query.parse (a ++ w' ++ b) = .ok q := by
  refine ⟨fun a w b stream ha hw => tokenize_append_gap ha hw b, ?_⟩
  intro a w w' b stream h hw hw' hplace q
  rw [tokenize, Position.start_eq, String.toList_append, String.toList_append,
    List.append_assoc] at h
  rw [String.toList_append] at hplace
  obtain ⟨first, ha⟩ : ∃ first, tokenize a = .ok first :=
    Lexer.scan_before_gap hw.2 hw.1 (Nat.zero_le _) h hplace
  exact ⟨parse_other_gap ha hw hw', parse_other_gap ha hw' hw⟩

/-- A literal over two lines before a gap over two lines, an error after it, and a gap in a query
that is widened to another line. -/
theorem tokenize_gap_lines :
    (∃ first rest, tokenize "show 'é\n'" = .ok first ∧ tokenize "x\n =" = .ok rest ∧
      tokenize ("show 'é\n'" ++ "\u3000\n " ++ "x\n =") =
        .ok (first.followedBy (rest.movedBy ("show 'é\n'" ++ "\u3000\n ").toList)) ∧
      (first.followedBy (rest.movedBy ("show 'é\n'" ++ "\u3000\n ").toList)).places =
        [⟨0, 1, 1⟩, ⟨5, 1, 6⟩, ⟨15, 3, 2⟩, ⟨18, 4, 2⟩, ⟨19, 4, 3⟩]) ∧
    tokenize ("show 'é\n'" ++ "\u3000\n " ++ "!") = .error ⟨⟨15, 3, 2⟩, .unexpected '!'⟩ ∧
    ∃ q, Query.parse ("show devices" ++ " " ++ "limit 5") = .ok q ∧
      Query.parse ("show devices" ++ "\n\u3000" ++ "limit 5") = .ok q ∧ q.limit = some 5 := by
  have hgap : Text.IsGap "\u3000\n " := ⟨by decide, List.all_eq_true.1 (by decide +kernel)⟩
  obtain ⟨first, rest, hfirst, hrest, hplaces⟩ : ∃ first rest,
      tokenize "show 'é\n'" = .ok first ∧ tokenize "x\n =" = .ok rest ∧
      (first.followedBy (rest.movedBy ("show 'é\n'" ++ "\u3000\n ").toList)).places =
        [⟨0, 1, 1⟩, ⟨5, 1, 6⟩, ⟨15, 3, 2⟩, ⟨18, 4, 2⟩, ⟨19, 4, 3⟩] :=
    ⟨_, _, rfl, rfl, by decide +kernel⟩
  have htokens := tokenize_gap.1 _ _ "x\n =" first hfirst hgap
  have herror := tokenize_gap.1 _ _ "!" first hfirst hgap
  rw [hrest] at htokens
  refine ⟨⟨first, rest, hfirst, hrest, htokens, hplaces⟩, herror, ?_⟩
  obtain ⟨stream, hstream, hplaces⟩ : ∃ stream,
      tokenize ("show devices" ++ " " ++ "limit 5") = .ok stream ∧
      stream.places = [⟨0, 1, 1⟩, ⟨5, 1, 6⟩, ⟨13, 1, 14⟩, ⟨19, 1, 20⟩, ⟨20, 1, 21⟩] :=
    ⟨_, rfl, by decide +kernel⟩
  have hspace : Text.IsGap " " := ⟨by decide, List.all_eq_true.1 (by decide +kernel)⟩
  have hlines : Text.IsGap "\n\u3000" := ⟨by decide, List.all_eq_true.1 (by decide +kernel)⟩
  have hplace : .ofBefore ("show devices" ++ " ").toList ∈ stream.places := by
    rw [hplaces]
    decide +kernel
  have hparse := tokenize_gap.2 _ _ _ _ stream hstream hspace hlines hplace
  obtain ⟨q, hq, hlimit⟩ : ∃ q, Query.parse ("show devices" ++ " " ++ "limit 5") = .ok q ∧
      q.limit = some 5 := ⟨_, rfl, rfl⟩
  exact ⟨q, hq, (hparse q).1 hq, hlimit⟩

end NetQuery
