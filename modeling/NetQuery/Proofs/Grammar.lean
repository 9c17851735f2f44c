import NetQuery.Query.Parser

/-!
# The grammar of queries

A grammar says which sequences of tokens are queries without saying how to find that out. Each rule
is a relation between a run of tokens and what the run stands for, and a rule that is made of others
puts their runs one after the other. Nothing here looks ahead, and nothing is read in an order.

The grammar does not bound how deep groups nest: `nesting` measures that on the conditions that a
derivation builds. The other bounds are premises of the rules that they belong to.
-/

namespace NetQuery.Grammar

/-- A token that stands for a scalar. -/
inductive Literal : TokenKind → Value → Prop where
  | text (s : String) : Literal (.text s) (.text s)
  | int (n : Int) : Literal (.int n) (.int n)
  | float (x : Float) : Literal (.float x) (.float x)
  | true : Literal (.keyword .true) (.bool Bool.true)
  | false : Literal (.keyword .false) (.bool Bool.false)
  | today : Literal (.keyword .today) (.keyword .today)
  | yesterday : Literal (.keyword .yesterday) (.keyword .yesterday)

/-- `value (',' value)*` -/
inductive Values : List TokenKind → List Value → Prop where
  | last {t : TokenKind} {v : Value} (h : Literal t v) : Values [t] [v]
  | more {t : TokenKind} {v : Value} {ts : List TokenKind} {vs : List Value} (h : Literal t v)
      (hs : Values ts vs) : Values (t :: .comma :: ts) (v :: vs)

/-- `name (',' name)*` -/
inductive Arguments : List TokenKind → List String → Prop where
  | last (arg : String) : Arguments [.name arg] [arg]
  | more (arg : String) {ts : List TokenKind} {args : List String} (h : Arguments ts args) :
      Arguments (.name arg :: .comma :: ts) (arg :: args)

/-- `name | name '(' name (',' name)* ')'` -/
inductive Field : List TokenKind → String → Prop where
  | column (name : String) : Field [.name name] name
  | call (name : String) {ts : List TokenKind} {args : List String} (h : Arguments ts args) :
      Field (.name name :: .openParen :: (ts ++ [.closeParen])) (FieldRef.call name args)

/-- An operator with its operand. A list has at most 200 values; that it has one at least is said
by `Values`. -/
inductive Operation : List TokenKind → Operator → Value → Prop where
  | compare (c : Comparator) {t : TokenKind} {v : Value} (h : Literal t v) :
      Operation [.compare c, t] (.compare c) v
  | like {t : TokenKind} {v : Value} (h : Literal t v) : Operation [.keyword .like, t] .like v
  | contains (s : String) : Operation [.keyword .contains, .text s] .contains (.text s)
  | isIn {ts : List TokenKind} {vs : List Value} (h : Values ts vs) (length : vs.length ≤ 200) :
      Operation (.keyword .in :: .openParen :: (ts ++ [.closeParen])) .isIn (.list vs)
  | between {t u : TokenKind} {low high : Value} (hlow : Literal t low) (hhigh : Literal u high) :
      Operation [.keyword .between, t, .keyword .and, u] .between (.list [low, high])
  | isNull : Operation [.keyword .is, .keyword .null] .isNull .null
  | isNotNull : Operation [.keyword .is, .keyword .not, .keyword .null] .isNotNull .null

/-- `AND | OR` -/
inductive Connective : TokenKind → Link → Prop where
  | and : Connective (.keyword .and) .and
  | or : Connective (.keyword .or) .or

mutual

/-- One condition, which the given link joins to the ones before it. -/
inductive Entry : Link → List TokenKind → Condition → Prop where
  /-- `field operation` -/
  | compare {link : Link} {ts us : List TokenKind} {field : String} {operator : Operator}
      {value : Value} (hfield : Field ts field) (hop : Operation us operator value) :
      Entry link (ts ++ us) (.compare link ⟨field, operator, value⟩)
  /-- `'(' chain ')'` -/
  | group {link : Link} {ts : List TokenKind} {members : List Condition}
      (h : Chain .first ts members) :
      Entry link (.openParen :: (ts ++ [.closeParen])) (.group link members)

/-- `condition ((AND | OR) condition)*`, where the given link joins the first condition to what
stands before the chain. -/
inductive Chain : Link → List TokenKind → List Condition → Prop where
  | last {link : Link} {ts : List TokenKind} {c : Condition} (h : Entry link ts c) :
      Chain link ts [c]
  | more {link next : Link} {ts us : List TokenKind} {t : TokenKind} {c : Condition}
      {cs : List Condition} (h : Entry link ts c) (ht : Connective t next)
      (hs : Chain next us cs) : Chain link (ts ++ t :: us) (c :: cs)

end

/-- `[WHERE chain]` -/
inductive Where : List TokenKind → List Condition → Prop where
  | absent : Where [] []
  | present {ts : List TokenKind} {cs : List Condition} (h : Chain .first ts cs) :
      Where (.keyword .where :: ts) cs

/-- `field [ASC | DESC]` -/
inductive Key : List TokenKind → OrderItem → Prop where
  | plain {ts : List TokenKind} {f : String} (h : Field ts f) : Key ts ⟨f, .ascending⟩
  | ascending {ts : List TokenKind} {f : String} (h : Field ts f) :
      Key (ts ++ [.keyword .asc]) ⟨f, .ascending⟩
  | descending {ts : List TokenKind} {f : String} (h : Field ts f) :
      Key (ts ++ [.keyword .desc]) ⟨f, .descending⟩

/-- `key (',' key)*` -/
inductive Keys : List TokenKind → List OrderItem → Prop where
  | last {ts : List TokenKind} {item : OrderItem} (h : Key ts item) : Keys ts [item]
  | more {ts us : List TokenKind} {item : OrderItem} {items : List OrderItem} (h : Key ts item)
      (hs : Keys us items) : Keys (ts ++ .comma :: us) (item :: items)

/-- `[ORDER BY keys]` -/
inductive Order : List TokenKind → List OrderItem → Prop where
  | absent : Order [] []
  | present {ts : List TokenKind} {items : List OrderItem} (h : Keys ts items) :
      Order (.keyword .order :: .keyword .by :: ts) items

/-- `[LIMIT integer]`, where the integer is not negative. -/
inductive Limit : List TokenKind → Option Nat → Prop where
  | absent : Limit [] none
  | present {n : Int} (h : 0 ≤ n) : Limit [.keyword .limit, .int n] (some n.toNat)

/-- `[LATEST]` -/
inductive Latest : List TokenKind → Bool → Prop where
  | absent : Latest [] false
  | present : Latest [.keyword .latest] true

/-- `SHOW | FIND` -/
inductive Show : Keyword → Prop where
  | show : Show .show
  | find : Show .find

/-- `(SHOW | FIND) entity [where] [order] [limit] [LATEST] | COUNT entity [where]`, where the name
of the entity is known. -/
inductive Whole : List TokenKind → Query → Prop where
  | records {verb : Keyword} {name : String} {e : Entity} {ws os ls ks : List TokenKind}
      {conditions : List Condition} {orderBy : List OrderItem} {limit : Option Nat} {latest : Bool}
      (hverb : Show verb) (hname : Entity.ofName? name = some e) (hwhere : Where ws conditions)
      (horder : Order os orderBy) (hlimit : Limit ls limit) (hlatest : Latest ks latest) :
      Whole (.keyword verb :: .name name :: (ws ++ (os ++ (ls ++ ks))))
        ⟨.records, e, conditions, orderBy, limit, latest, none⟩
  | count {name : String} {e : Entity} {ws : List TokenKind} {conditions : List Condition}
      (hname : Entity.ofName? name = some e) (hwhere : Where ws conditions) :
      Whole (.keyword .count :: .name name :: ws) ⟨.count, e, conditions, [], none, false, none⟩

end NetQuery.Grammar

namespace NetQuery

mutual

/-- How many groups of a condition stand inside one another. -/
def Condition.nesting : Condition → Nat
  | .compare _ _ => 0
  | .group _ members => nestingOf members + 1

/-- How many groups of a chain stand inside one another. Groups side by side do not add up. -/
def nestingOf : List Condition → Nat
  | [] => 0
  | c :: cs => max c.nesting (nestingOf cs)

end

end NetQuery
