import Parlance.Expr.Grammar

/-!
# The grammar of expressions

The grammar as rules that derive a tree from a list of tokens, without regard to how such a list is
read. Its levels go from loose to tight. Left sides of `or`, `and`, sums, products, indexes and
calls are of the same level as the whole, so these group to the left; a chain of comparisons is one
node, and parentheses leave no trace in the tree.
-/

namespace Parlance

/-- The tokens that a comparison operator is written with. -/
def CompareOp.tokens : CompareOp → List Token
  | .equal => [.sign .equal]
  | .notEqual => [.sign .notEqual]
  | .lessThan => [.sign .less]
  | .lessEqual => [.sign .lessEqual]
  | .greaterThan => [.sign .greater]
  | .greaterEqual => [.sign .greaterEqual]
  | .within => [.keyword .within]
  | .notWithin => [.keyword .not, .keyword .within]

/-- The leaf that a single token stands for. -/
def Token.leaf? : Token → Option Expr
  | .int i => some (.literal (.int i))
  | .float f => some (.literal (.float f))
  | .str s => some (.literal (.str s))
  | .value v => some (.literal v)
  | .keyword .yes => some (.literal (.bool true))
  | .keyword .no => some (.literal (.bool false))
  | .keyword .nothing => some (.literal .none)
  | .name n => some (.name n)
  | _ => none

namespace Expr

/-- The operators of a sum. -/
def sumOps : List (Sign × BinaryOp) :=
  [(.plus, .add), (.minus, .subtract)]

/-- The operators of a product. -/
def termOps : List (Sign × BinaryOp) :=
  [(.star, .multiply), (.slash, .divide), (.slashSlash, .floorDivide), (.percent, .modulo)]

/-- The operators in front of an operand. -/
def signOps : List (Sign × UnaryOp) :=
  [(.minus, .negate), (.plus, .plus)]

/-- The levels of the grammar, from loose to tight. -/
inductive Level where
  | or
  | and
  | not
  | comparison
  | sum
  | term
  /-- A power behind signs. -/
  | signed
  | power
  /-- An atom with indexes and calls behind it. -/
  | access
  /-- A leaf, a list or an expression in parentheses. -/
  | atom
  deriving DecidableEq

/-- The next tighter level. -/
def Level.tighter? : Level → Option Level
  | .or => some .and
  | .and => some .not
  | .not => some .comparison
  | .comparison => some .sum
  | .sum => some .term
  | .term => some .signed
  | .signed => some .power
  | .power => some .access
  | .access => some .atom
  | .atom => none

/-- How tight a level is. -/
def Level.rank : Level → Nat
  | .or => 0
  | .and => 1
  | .not => 2
  | .comparison => 3
  | .sum => 4
  | .term => 5
  | .signed => 6
  | .power => 7
  | .access => 8
  | .atom => 9

theorem Level.rank_tighter {l l' : Level} (next : l.tighter? = some l') : l'.rank = l.rank + 1 := by
  cases l <;> cases next <;> rfl

theorem Level.rank_le (l : Level) : l.rank ≤ 9 := by
  cases l <;> decide

theorem Level.rank_injective {l l' : Level} (h : l.rank = l'.rank) : l = l' := by
  cases l <;> cases l' <;> first | rfl | cases h

theorem Level.exists_tighter {l : Level} (h : l.rank < 9) : ∃ l', l.tighter? = some l' := by
  cases l <;> first | exact ⟨_, rfl⟩ | exact absurd h (by decide)

mutual

/-- The trees that are derived from tokens at a level. -/
inductive Derives : Level → List Token → Expr → Prop
  | tighter {l l' : Level} {ts : List Token} {e : Expr} (next : l.tighter? = some l')
      (h : Derives l' ts e) : Derives l ts e
  | or {ts us : List Token} {a b : Expr} (left : Derives .or ts a) (right : Derives .and us b) :
      Derives .or (ts ++ .keyword .or :: us) (.or a b)
  | and {ts us : List Token} {a b : Expr} (left : Derives .and ts a) (right : Derives .not us b) :
      Derives .and (ts ++ .keyword .and :: us) (.and a b)
  | not {ts : List Token} {e : Expr} (operand : Derives .not ts e) :
      Derives .not (.keyword .not :: ts) (.unary .not e)
  | comparison {ts us : List Token} {e : Expr} {links : List Link} (first : Derives .sum ts e)
      (more : DerivesLinks us links) (nonempty : links ≠ []) :
      Derives .comparison (ts ++ us) (.compare e links)
  | sum {ts us : List Token} {a b : Expr} {s : Sign} {op : BinaryOp} (sign : (s, op) ∈ sumOps)
      (left : Derives .sum ts a) (right : Derives .term us b) :
      Derives .sum (ts ++ .sign s :: us) (.binary op a b)
  | term {ts us : List Token} {a b : Expr} {s : Sign} {op : BinaryOp} (sign : (s, op) ∈ termOps)
      (left : Derives .term ts a) (right : Derives .signed us b) :
      Derives .term (ts ++ .sign s :: us) (.binary op a b)
  | signed {ts : List Token} {e : Expr} {s : Sign} {op : UnaryOp} (sign : (s, op) ∈ signOps)
      (operand : Derives .signed ts e) : Derives .signed (.sign s :: ts) (.unary op e)
  | power {ts us : List Token} {a b : Expr} (base : Derives .access ts a)
      (exponent : Derives .signed us b) :
      Derives .power (ts ++ .sign .starStar :: us) (.binary .power a b)
  | index {ts us : List Token} {a b : Expr} (target : Derives .access ts a)
      (place : Derives .or us b) :
      Derives .access (ts ++ .sign .openBracket :: (us ++ [.sign .closeBracket])) (.index a b)
  | call {ts us : List Token} {e : Expr} {args : List Expr} (callee : Derives .access ts e)
      (sequence : DerivesSequence us args) :
      Derives .access (ts ++ .sign .openParen :: (us ++ [.sign .closeParen])) (.call e args)
  | leaf {t : Token} {e : Expr} (h : t.leaf? = some e) : Derives .atom [t] e
  | parens {ts : List Token} {e : Expr} (inner : Derives .or ts e) :
      Derives .atom (.sign .openParen :: (ts ++ [.sign .closeParen])) e
  | list {ts : List Token} {items : List Expr} (sequence : DerivesSequence ts items) :
      Derives .atom (.sign .openBracket :: (ts ++ [.sign .closeBracket])) (.list items)

/-- The steps of a comparison chain that are derived from tokens. -/
inductive DerivesLinks : List Token → List Link → Prop
  | nil : DerivesLinks [] []
  | cons {ts us : List Token} {e : Expr} {links : List Link} (op : CompareOp)
      (operand : Derives .sum ts e) (more : DerivesLinks us links) :
      DerivesLinks (op.tokens ++ (ts ++ us)) (.mk op e :: links)

/-- One or more expressions between commas. -/
inductive DerivesItems : List Token → List Expr → Prop
  | one {ts : List Token} {e : Expr} (item : Derives .or ts e) : DerivesItems ts [e]
  | more {ts us : List Token} {e : Expr} {es : List Expr} (item : Derives .or ts e)
      (rest : DerivesItems us es) : DerivesItems (ts ++ .sign .comma :: us) (e :: es)

/-- Nothing, or expressions between commas, with a comma behind the last one or without. -/
inductive DerivesSequence : List Token → List Expr → Prop
  | nil : DerivesSequence [] []
  | plain {ts : List Token} {es : List Expr} (items : DerivesItems ts es) : DerivesSequence ts es
  | trailing {ts : List Token} {es : List Expr} (items : DerivesItems ts es) :
      DerivesSequence (ts ++ [.sign .comma]) es

end

/-- A level contains those that are tighter. -/
theorem Derives.loosen {l l' : Level} {ts : List Token} {e : Expr} (h : Derives l' ts e)
    (hrank : l.rank ≤ l'.rank) : Derives l ts e := by
  obtain ⟨n, hn⟩ : ∃ n, l'.rank = l.rank + n := ⟨l'.rank - l.rank, by omega⟩
  induction n generalizing l with
  | zero =>
      obtain rfl : l' = l := Level.rank_injective hn
      exact h
  | succ n ih =>
      have hle := Level.rank_le l'
      obtain ⟨l₁, next⟩ := Level.exists_tighter (l := l) (by omega)
      have hrank₁ := Level.rank_tighter next
      exact .tighter next (ih (by omega) (by omega))

end Expr

end Parlance
