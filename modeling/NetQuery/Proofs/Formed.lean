import NetQuery.Proofs.Fields
import NetQuery.Proofs.Parsing

/-!
# What a query that was read is like

Not every query can be written down: the type of queries allows a chain without conditions, a range
of three values, or a field that is no name. A query that was read from a text has none of these.
The derivation that the grammar gives for it says so rule by rule, and the tokens of a text bring in
that names are words.
-/

namespace NetQuery

/-- A value that one token can stand for. -/
def Value.IsScalar : Value → Prop
  | .list _ | .null => False
  | _ => True

/-- An operand of the form that its operator asks for. -/
inductive Operand : Operator → Value → Prop where
  | compare (c : Comparator) {v : Value} (h : v.IsScalar) : Operand (.compare c) v
  | like {v : Value} (h : v.IsScalar) : Operand .like v
  | contains (s : String) : Operand .contains (.text s)
  | isIn {vs : List Value} (hne : vs ≠ []) (hlength : vs.length ≤ 200)
      (h : ∀ v ∈ vs, v.IsScalar) : Operand .isIn (.list vs)
  | between {low high : Value} (hlow : low.IsScalar) (hhigh : high.IsScalar) :
      Operand .between (.list [low, high])
  | isNull : Operand .isNull .null
  | isNotNull : Operand .isNotNull .null

/-- A comparison of a field with an operand of the right form. -/
structure Comparison.Formed (c : Comparison) : Prop where
  /-- The field has a name. -/
  field : IsField c.field
  /-- The operand goes with the operator. -/
  operand : Operand c.operator c.value

mutual

/-- A condition that the given link joins to the ones before it. -/
inductive Condition.Formed : Link → Condition → Prop where
  | compare {link : Link} {c : Comparison} (h : c.Formed) : Condition.Formed link (.compare link c)
  | group {link : Link} {members : List Condition} (h : ChainFormed .first members) :
      Condition.Formed link (.group link members)

/-- A chain of conditions, of which the given link joins the first to what stands before. There is a
first condition, and each later one is joined by `and` or `or`. -/
inductive ChainFormed : Link → List Condition → Prop where
  | last {link : Link} {c : Condition} (h : c.Formed link) : ChainFormed link [c]
  | more {link next : Link} {c : Condition} {cs : List Condition} (h : c.Formed link)
      (hnext : next ≠ .first) (hs : ChainFormed next cs) : ChainFormed link (c :: cs)

end

/-- A query that can be written down. -/
structure Query.Formed (q : Query) : Prop where
  /-- If there are conditions, they form a chain. -/
  conditions : q.conditions ≠ [] → ChainFormed .first q.conditions
  /-- Groups nest at most 16 deep. -/
  nesting : nestingOf q.conditions ≤ 16
  /-- The keys of the ordering have names. -/
  orderBy : ∀ item ∈ q.orderBy, IsField item.field
  /-- A count has no other clauses. -/
  count : q.kind = .count → q.orderBy = [] ∧ q.limit = none ∧ q.latest = false
  /-- A text asks for no page. -/
  page : q.page = none

namespace Grammar

open Lexer (IsName)

/-- The names among the tokens are words. -/
def Named (ks : List TokenKind) : Prop := ∀ w, TokenKind.name w ∈ ks → IsName w

theorem Named.left {ks ls : List TokenKind} (h : Named (ks ++ ls)) : Named ks :=
  fun w hw => h w (List.mem_append_left _ hw)

theorem Named.right {ks ls : List TokenKind} (h : Named (ks ++ ls)) : Named ls :=
  fun w hw => h w (List.mem_append_right _ hw)

theorem Named.head {w : String} {ks : List TokenKind} (h : Named (.name w :: ks)) : IsName w :=
  h w List.mem_cons_self

theorem Named.tail {k : TokenKind} {ks : List TokenKind} (h : Named (k :: ks)) : Named ks :=
  fun w hw => h w (List.mem_cons_of_mem _ hw)

theorem Literal.isScalar {t : TokenKind} {v : Value} (h : Literal t v) : v.IsScalar := by
  cases h <;> trivial

theorem Values.isScalar {ks : List TokenKind} {vs : List Value} (h : Values ks vs) :
    vs ≠ [] ∧ ∀ v ∈ vs, v.IsScalar := by
  induction h with
  | last hv => simpa using hv.isScalar
  | more hv _ ih => simpa using ⟨hv.isScalar, ih.2⟩

theorem Arguments.isName {ks : List TokenKind} {args : List String} (h : Arguments ks args)
    (hnames : Named ks) : args ≠ [] ∧ ∀ arg ∈ args, IsName arg := by
  induction h with
  | last arg => simpa using hnames.head
  | more arg _ ih => simpa using ⟨hnames.head, (ih hnames.tail.tail).2⟩

theorem Field.isField {ks : List TokenKind} {f : String} (h : Field ks f) (hnames : Named ks) :
    IsField f := by
  cases h with
  | column => exact .column hnames.head
  | call name hargs =>
    obtain ⟨hne, hall⟩ := hargs.isName hnames.tail.tail.left
    exact .call hnames.head hne hall

theorem Operation.operand {ks : List TokenKind} {op : Operator} {v : Value}
    (h : Operation ks op v) : Operand op v := by
  cases h with
  | compare c hv => exact .compare c hv.isScalar
  | like hv => exact .like hv.isScalar
  | contains s => exact .contains s
  | isIn hvs hlength => exact .isIn hvs.isScalar.1 hlength hvs.isScalar.2
  | between hlow hhigh => exact .between hlow.isScalar hhigh.isScalar
  | isNull => exact .isNull
  | isNotNull => exact .isNotNull

mutual

theorem Entry.formed {link : Link} {ks : List TokenKind} {c : Condition} (h : Entry link ks c)
    (hnames : Named ks) : c.Formed link := by
  cases h with
  | compare hfield hop => exact .compare ⟨hfield.isField hnames.left, hop.operand⟩
  | group hmembers => exact .group (hmembers.formed hnames.tail.left)

theorem Chain.formed {link : Link} {ks : List TokenKind} {cs : List Condition}
    (h : Chain link ks cs) (hnames : Named ks) : ChainFormed link cs := by
  cases h with
  | last hc => exact .last (hc.formed hnames)
  | more hc ht hcs =>
    refine .more (hc.formed hnames.left) ?_ (hcs.formed hnames.right.tail)
    cases ht <;> simp

end

theorem Where.formed {ks : List TokenKind} {cs : List Condition} (h : Where ks cs)
    (hnames : Named ks) : cs ≠ [] → ChainFormed .first cs := by
  cases h with
  | absent => exact fun hne => absurd rfl hne
  | present hchain => exact fun _ => hchain.formed hnames.tail

theorem Key.isField {ks : List TokenKind} {item : OrderItem} (h : Key ks item)
    (hnames : Named ks) : IsField item.field := by
  cases h with
  | plain hf => exact hf.isField hnames
  | ascending hf => exact hf.isField hnames.left
  | descending hf => exact hf.isField hnames.left

theorem Keys.isField {ks : List TokenKind} {items : List OrderItem} (h : Keys ks items)
    (hnames : Named ks) : ∀ item ∈ items, IsField item.field := by
  induction h with
  | last hkey => simpa using hkey.isField hnames
  | more hkey _ ih => simpa using ⟨hkey.isField hnames.left, ih hnames.right.tail⟩

theorem Order.isField {ks : List TokenKind} {items : List OrderItem} (h : Order ks items)
    (hnames : Named ks) : ∀ item ∈ items, IsField item.field := by
  cases h with
  | absent => simp
  | present hkeys => exact hkeys.isField hnames.tail.tail

theorem Whole.formed {ks : List TokenKind} {q : Query} (h : Whole ks q)
    (hnesting : nestingOf q.conditions ≤ 16) (hnames : Named ks) : q.Formed := by
  cases h with
  | records hverb hname hwhere horder hlimit hlatest =>
    exact
      { conditions := hwhere.formed hnames.tail.tail.left
        nesting := hnesting
        orderBy := horder.isField hnames.tail.tail.right.left
        count := nofun
        page := rfl }
  | count hname hwhere =>
    exact
      { conditions := hwhere.formed hnames.tail.tail
        nesting := hnesting
        orderBy := by simp
        count := fun _ => ⟨rfl, rfl, rfl⟩
        page := rfl }

end Grammar

/-- A query that was read from a text can be written down. -/
theorem Query.parse_formed {text : String} {q : Query} (h : Query.parse text = .ok q) :
    q.Formed := by
  unfold Query.parse at h
  cases htokens : tokenize text with
  | error e => simp [htokens] at h
  | ok stream =>
    rw [htokens] at h
    obtain ⟨hwhole, hnesting⟩ := Parser.query_sound (TokenStream.query_eq_ok.1 h)
    refine hwhole.formed hnesting ?_
    intro w hw
    obtain ⟨t, ht, hkind⟩ := List.mem_map.1 hw
    exact tokenize_name htokens t ht w hkind

end NetQuery
