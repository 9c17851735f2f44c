import NetQuery.Proofs.Faults

/-!
# Places are exact

The lexer counts bytes, lines and columns one character at a time. What it counts is told by the
text alone: a place is given by all that stands before it, by its size in bytes, by its line feeds
and by what follows the last of them. Every place that is reported, with a token or with an error,
is the place of some character of the text or its end, and is counted right.
-/

namespace NetQuery

/-- The place that comes after `before`. -/
def Position.ofBefore (before : List Char) : Position where
  offset := (String.ofList before).utf8ByteSize
  line := 1 + before.count '\n'
  column := 1 + (before.reverse.takeWhile (· ≠ '\n')).length

/-- The place is one of the text: it comes after some part of it. -/
def Position.IsExact (text : String) (p : Position) : Prop :=
  ∃ before after, text.toList = before ++ after ∧ p = .ofBefore before

/-- The place of a character that is not blank, in a stretch `cs` of a text that comes after
`before`. -/
def Position.StartsToken (before cs : List Char) (p : Position) : Prop :=
  ∃ between c after, cs = between ++ c :: after ∧ Text.isBlank c = false ∧
    p = .ofBefore (before ++ between)

/-- The place that an error reports. -/
def ParseError.position : ParseError → Position
  | .syntaxError p _ | .unknownEntity _ p => p

/-- The offsets of the tokens, and of the end of the text. -/
def TokenStream.offsets (stream : TokenStream) : List Nat :=
  stream.tokens.map (·.position.offset) ++ [stream.finish.offset]

namespace Position

variable {before cs : List Char} {c : Char} {p : Position}

theorem offset_snoc (before : List Char) (c : Char) :
    (ofBefore (before ++ [c])).offset = (ofBefore before).offset + c.utf8Size := by
  simp [ofBefore]

/-- Counting goes on by one character. -/
theorem after_ofBefore (before : List Char) (c : Char) :
    (ofBefore before).after c = ofBefore (before ++ [c]) := by
  have hoffset := offset_snoc before c
  have hreverse : (before ++ [c]).reverse = c :: before.reverse := by simp
  simp only [ofBefore] at hoffset
  simp only [after, ofBefore, hoffset, hreverse, List.count_append, List.count_singleton,
    List.takeWhile_cons]
  by_cases hc : c = '\n'
  · simp [hc, Nat.add_assoc]
  · simp [hc, Nat.add_assoc]

theorem StartsToken.skip (h : p.StartsToken (before ++ [c]) cs) :
    p.StartsToken before (c :: cs) := by
  obtain ⟨between, d, after, rfl, hd, rfl⟩ := h
  exact ⟨c :: between, d, after, rfl, hd, by simp⟩

theorem startsToken_here (hc : Text.isBlank c = false) :
    (ofBefore before).StartsToken before (c :: cs) :=
  ⟨[], c, cs, rfl, hc, by rw [List.append_nil]⟩

theorem StartsToken.isExact {text : String} (h : p.StartsToken [] text.toList) :
    p.IsExact text := by
  obtain ⟨between, c, after, htext, -, hp⟩ := h
  exact ⟨between, c :: after, htext, hp⟩

end Position

/-! ## The lexer -/

namespace Lexer

variable {before cs : List Char} {c : Char} {stream : TokenStream}

/-- What is known of the tokens of a stretch `cs` of a text that comes after `before`. -/
structure Placed (before cs : List Char) (stream : TokenStream) : Prop where
  /-- Each token starts at a character that is not blank. -/
  starts : ∀ t ∈ stream.tokens, t.position.StartsToken before cs
  /-- The end comes after everything. -/
  finish : stream.finish = .ofBefore (before ++ cs)
  /-- No token starts before the stretch. -/
  least : ∀ offset ∈ stream.offsets, (Position.ofBefore before).offset ≤ offset
  /-- Each token starts after the one before it. -/
  increasing : stream.offsets.Pairwise (· < ·)

/-- A character that is passed over changes nothing. -/
theorem Placed.skip (h : Placed (before ++ [c]) cs stream) : Placed before (c :: cs) stream where
  starts := fun t ht => (h.starts t ht).skip
  finish := by simpa using h.finish
  least := by
    intro offset hoffset
    have hle := h.least offset hoffset
    rw [Position.offset_snoc] at hle
    omega
  increasing := h.increasing

/-- A token at the first character comes before the others. -/
theorem Placed.cons (h : Placed (before ++ [c]) cs stream) (hc : Text.isBlank c = false)
    (kind : TokenKind) : Placed before (c :: cs)
      ⟨⟨kind, .ofBefore before⟩ :: stream.tokens, stream.finish⟩ where
  starts := List.forall_mem_cons.2
    ⟨Position.startsToken_here hc, fun t ht => (h.starts t ht).skip⟩
  finish := h.skip.finish
  least := List.forall_mem_cons.2 ⟨Nat.le_refl _, h.skip.least⟩
  increasing := by
    refine List.pairwise_cons.2 ⟨fun offset hoffset => ?_, h.increasing⟩
    have hle := h.least offset hoffset
    rw [Position.offset_snoc] at hle
    exact Nat.lt_of_lt_of_le (Nat.lt_add_of_pos_right c.utf8Size_pos) hle

theorem placed_nil (before : List Char) : Placed before [] ⟨[], .ofBefore before⟩ where
  starts := by simp
  finish := by rw [List.append_nil]
  least := by simp [TokenStream.offsets]
  increasing := by simp [TokenStream.offsets]

/-- The tokens of a text are placed, whatever stands before it. -/
theorem scan_placed {taken : Nat} {p : Position} (hp : p = .ofBefore before)
    (h : scan taken p cs = .ok stream) : Placed before cs stream := by
  fun_induction scan taken p cs generalizing before stream with
  | case1 =>
    cases h
    exact hp ▸ placed_nil before
  | case2 p taken c cs ih => exact (ih (by rw [hp, Position.after_ofBefore]) h).skip
  | case3 p c cs hblank ih => exact (ih (by rw [hp, Position.after_ofBefore]) h).skip
  | case4 => cases h
  | case5 => cases h
  | case6 p c cs hblank l hl stream' hstream ih =>
    cases h
    subst hp
    exact (ih (Position.after_ofBefore before c) hstream).cons (by simpa using hblank) l.kind

/-- A token that cannot be read starts at a character that is not blank. -/
theorem scan_error {taken : Nat} {p : Position} {e : LexicalError} (hp : p = .ofBefore before)
    (h : scan taken p cs = .error e) : e.position.StartsToken before cs := by
  fun_induction scan taken p cs generalizing before with
  | case1 => cases h
  | case2 p taken c cs ih => exact (ih (by rw [hp, Position.after_ofBefore]) h).skip
  | case3 p c cs hblank ih => exact (ih (by rw [hp, Position.after_ofBefore]) h).skip
  | case4 p c cs hblank fault =>
    cases h
    exact hp ▸ Position.startsToken_here (by simpa using hblank)
  | case5 p c cs hblank l hl e' he ih =>
    cases h
    exact (ih (by rw [hp, Position.after_ofBefore]) he).skip
  | case6 => cases h

end Lexer

section Text

variable {text : String}

theorem tokenize_placed {stream : TokenStream} (h : tokenize text = .ok stream) :
    Lexer.Placed [] text.toList stream :=
  Lexer.scan_placed rfl h

theorem tokenize_error {e : LexicalError} (h : tokenize text = .error e) :
    e.position.StartsToken [] text.toList :=
  Lexer.scan_error rfl h

/-! ## The parser -/

/-- A fault of the grammar shows at a token or at the end, and both are placed. -/
theorem GrammarFault.PointsInto.isExact {stream : TokenStream} {fault : GrammarFault}
    (h : fault.PointsInto stream.tokens) (hplaced : Lexer.Placed [] text.toList stream) :
    (fault.toParseError stream.finish).position.IsExact text := by
  have htoken : ∀ t ∈ stream.tokens, t.position.IsExact text := fun t ht =>
    (hplaced.starts t ht).isExact
  have hmem : ∀ {p : Position}, (∃ t ∈ stream.tokens, t.position = p) → p.IsExact text := by
    rintro p ⟨t, ht, rfl⟩
    exact htoken t ht
  cases fault with
  | expected what left =>
    cases left with
    | nil => exact ⟨text.toList, [], by simp, hplaced.finish⟩
    | cons t left => exact htoken t (List.IsSuffix.subset h List.mem_cons_self)
  | nesting p => exact hmem h
  | listLength p => exact hmem h
  | negativeLimit p => exact hmem h
  | unknownEntity name p => exact hmem h

theorem parse_error_isExact {e : ParseError} (h : Query.parse text = .error e) :
    e.position.IsExact text := by
  unfold Query.parse at h
  split at h
  next lexical hlexical =>
    cases h
    exact (tokenize_error hlexical).isExact
  next stream hstream =>
    obtain ⟨fault, hfault, rfl⟩ := mapError_eq_error_iff.1 h
    exact (Parser.query_pointsInto hfault).isExact (tokenize_placed hstream)

end Text

/-- Every place is exact. A token has the place of a character that is not blank, and the end has
the place after the last character; offsets increase from each token to the next and to the end. An
error, of the lexer or of the parser, has the place of a character or of the end. -/
theorem positions_exact (text : String) :
    (∀ stream, tokenize text = .ok stream →
      (∀ t ∈ stream.tokens, ∃ before c after, text.toList = before ++ c :: after ∧
        Text.isBlank c = false ∧ t.position = .ofBefore before) ∧
      stream.finish = .ofBefore text.toList ∧ stream.finish.offset = text.utf8ByteSize ∧
      stream.offsets.Pairwise (· < ·)) ∧
    (∀ e, tokenize text = .error e → e.position.IsExact text) ∧
    ∀ e, Query.parse text = .error e → e.position.IsExact text := by
  refine ⟨fun stream h => ?_, fun e h => (tokenize_error h).isExact, fun e => parse_error_isExact⟩
  have hplaced := tokenize_placed h
  have hfinish : stream.finish = .ofBefore text.toList := hplaced.finish
  refine ⟨hplaced.starts, hfinish, ?_, hplaced.increasing⟩
  rw [hfinish, Position.ofBefore, String.ofList_toList]

/-- A literal over two lines with a letter of two bytes, and a literal in the place of an entity
after a blank of three bytes. -/
theorem positions_exact_two_lines :
    (∃ stream, tokenize "show 'é\n' x" = .ok stream ∧ stream.offsets = [0, 5, 11, 12] ∧
      stream.offsets.Pairwise (· < ·)) ∧
    ∃ e, Query.parse "show\u3000\n 'é'" = .error e ∧ e.position = ⟨9, 2, 2⟩ ∧
      e.position.IsExact "show\u3000\n 'é'" := by
  constructor
  · obtain ⟨stream, hstream, hoffsets⟩ : ∃ stream, tokenize "show 'é\n' x" = .ok stream ∧
        stream.offsets = [0, 5, 11, 12] := ⟨_, rfl, by decide +kernel⟩
    exact ⟨stream, hstream, hoffsets, ((positions_exact _).1 stream hstream).2.2.2⟩
  · have hplace : ((Query.parse "show\u3000\n 'é'").map fun _ => ()).mapError ParseError.position =
        .error ⟨9, 2, 2⟩ := by
      decide +kernel
    obtain ⟨e, he, hposition⟩ := mapError_eq_error_iff.1 hplace
    exact ⟨e, map_eq_error_iff.1 he, hposition, (positions_exact _).2.2 e (map_eq_error_iff.1 he)⟩

end NetQuery
