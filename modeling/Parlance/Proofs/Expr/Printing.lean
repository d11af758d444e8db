import Parlance.Proofs.Expr.Completeness

/-!
# Printing trees

A tree is printed with parentheses around all its parts, so that the grammar derives it from what is
printed whatever the levels of its parts are. Only an empty chain of comparisons has no tokens of
its own: it would be printed as its operand.
-/

namespace Parlance

/-- The token of a value: as it is written, or put in where a value cannot be written. -/
def Value.token : Value → Token
  | .none => .keyword .nothing
  | .bool true => .keyword .yes
  | .bool false => .keyword .no
  | .int i => .int i
  | .float f => .float f
  | .str s => .str s
  | .list cell => .value (.list cell)
  | .record cell => .value (.record cell)

/-- The token of an operator in front of its operand. -/
def UnaryOp.token : UnaryOp → Token
  | .negate => .sign .minus
  | .plus => .sign .plus
  | .not => .keyword .not

/-- The sign of an operator between two operands. -/
def BinaryOp.sign : BinaryOp → Sign
  | .add => .plus
  | .subtract => .minus
  | .multiply => .star
  | .divide => .slash
  | .floorDivide => .slashSlash
  | .modulo => .percent
  | .power => .starStar

/-- Tokens in parentheses. -/
def Token.enclosed (ts : List Token) : List Token :=
  .sign .openParen :: (ts ++ [.sign .closeParen])

namespace Expr

mutual

/-- The tokens of a tree, with parentheses around all its parts. -/
def printed : Expr → List Token
  | .literal v => [v.token]
  | .name n => [.name n]
  | .list items => .sign .openBracket :: (printedItems items ++ [.sign .closeBracket])
  | .unary op operand => op.token :: Token.enclosed operand.printed
  | .binary op left right =>
    Token.enclosed left.printed ++ .sign op.sign :: Token.enclosed right.printed
  | .compare first links => Token.enclosed first.printed ++ printedLinks links
  | .and left right => Token.enclosed left.printed ++ .keyword .and :: Token.enclosed right.printed
  | .or left right => Token.enclosed left.printed ++ .keyword .or :: Token.enclosed right.printed
  | .index target place =>
    Token.enclosed target.printed ++
      .sign .openBracket :: (Token.enclosed place.printed ++ [.sign .closeBracket])
  | .call callee args =>
    Token.enclosed callee.printed ++
      .sign .openParen :: (printedItems args ++ [.sign .closeParen])

/-- The tokens of the items of a sequence. -/
def printedItems : List Expr → List Token
  | [] => []
  | item :: items => Token.enclosed item.printed ++ printedMore items

/-- The tokens of the items behind the first one. -/
def printedMore : List Expr → List Token
  | [] => []
  | item :: items => .sign .comma :: (Token.enclosed item.printed ++ printedMore items)

/-- The tokens of the steps of a comparison chain. -/
def printedLinks : List Link → List Token
  | [] => []
  | .mk op operand :: links => op.tokens ++ (Token.enclosed operand.printed ++ printedLinks links)

end

mutual

/-- Whether every comparison in a tree has an operator. -/
def isPrintable : Expr → Bool
  | .literal _ => true
  | .name _ => true
  | .list items => arePrintable items
  | .unary _ operand => operand.isPrintable
  | .binary _ left right => left.isPrintable && right.isPrintable
  | .compare first links => first.isPrintable && !links.isEmpty && linksArePrintable links
  | .and left right => left.isPrintable && right.isPrintable
  | .or left right => left.isPrintable && right.isPrintable
  | .index target place => target.isPrintable && place.isPrintable
  | .call callee args => callee.isPrintable && arePrintable args

/-- Whether every comparison in some trees has an operator. -/
def arePrintable : List Expr → Bool
  | [] => true
  | e :: es => e.isPrintable && arePrintable es

/-- Whether every comparison in the operands of a chain has an operator. -/
def linksArePrintable : List Link → Bool
  | [] => true
  | .mk _ operand :: links => operand.isPrintable && linksArePrintable links

end

theorem derives_token (v : Value) : Derives .atom [v.token] (.literal v) := by
  cases v with
  | bool b => cases b <;> exact .leaf rfl
  | _ => exact .leaf rfl

/-- What is in parentheses stands at every level. -/
theorem Derives.enclosed {ts : List Token} {e : Expr} (h : Derives .or ts e) (l : Level) :
    Derives l (Token.enclosed ts) e :=
  (Derives.parens h).loosen (Level.rank_le l)

theorem derives_unary {ts : List Token} {e : Expr} (op : UnaryOp) (operand : Derives .or ts e) :
    Derives .or (op.token :: Token.enclosed ts) (.unary op e) := by
  cases op with
  | negate => exact (Derives.signed (by decide) (operand.enclosed .signed)).loosen (by decide)
  | plus => exact (Derives.signed (by decide) (operand.enclosed .signed)).loosen (by decide)
  | not => exact (Derives.not (operand.enclosed .not)).loosen (by decide)

theorem derives_binary {ts us : List Token} {a b : Expr} (op : BinaryOp) (left : Derives .or ts a)
    (right : Derives .or us b) :
    Derives .or (Token.enclosed ts ++ .sign op.sign :: Token.enclosed us) (.binary op a b) := by
  have sum {s : Sign} {op : BinaryOp} (sign : (s, op) ∈ sumOps) :
      Derives .or (Token.enclosed ts ++ .sign s :: Token.enclosed us) (.binary op a b) :=
    (Derives.sum sign (left.enclosed .sum) (right.enclosed .term)).loosen (by decide)
  have term {s : Sign} {op : BinaryOp} (sign : (s, op) ∈ termOps) :
      Derives .or (Token.enclosed ts ++ .sign s :: Token.enclosed us) (.binary op a b) :=
    (Derives.term sign (left.enclosed .term) (right.enclosed .signed)).loosen (by decide)
  cases op with
  | add | subtract => exact sum (by decide)
  | multiply | divide | floorDivide | modulo => exact term (by decide)
  | power =>
      exact (Derives.power (left.enclosed .access) (right.enclosed .signed)).loosen (by decide)

mutual

theorem derives_printed : ∀ e : Expr, e.isPrintable = true → Derives .or e.printed e
  | .literal v, _ => (derives_token v).loosen (by decide)
  | .name _, _ => (Derives.leaf rfl).loosen (by decide)
  | .list items, h => (Derives.list (derives_printedItems items h)).loosen (by decide)
  | .unary op operand, h => derives_unary op (derives_printed operand h)
  | .binary op left right, h => by
    simp only [isPrintable, Bool.and_eq_true] at h
    exact derives_binary op (derives_printed left h.1) (derives_printed right h.2)
  | .compare first links, h => by
    simp only [isPrintable, Bool.and_eq_true, Bool.not_eq_true', List.isEmpty_eq_false_iff] at h
    have dfirst := (derives_printed first h.1.1).enclosed .sum
    exact (Derives.comparison dfirst (derives_printedLinks links h.2) h.1.2).loosen (by decide)
  | .and left right, h => by
    simp only [isPrintable, Bool.and_eq_true] at h
    have dleft := (derives_printed left h.1).enclosed .and
    exact (Derives.and dleft ((derives_printed right h.2).enclosed .not)).loosen (by decide)
  | .or left right, h => by
    simp only [isPrintable, Bool.and_eq_true] at h
    have dleft := (derives_printed left h.1).enclosed .or
    exact .or dleft ((derives_printed right h.2).enclosed .and)
  | .index target place, h => by
    simp only [isPrintable, Bool.and_eq_true] at h
    have dtarget := (derives_printed target h.1).enclosed .access
    exact (Derives.index dtarget ((derives_printed place h.2).enclosed .or)).loosen (by decide)
  | .call callee args, h => by
    simp only [isPrintable, Bool.and_eq_true] at h
    have dcallee := (derives_printed callee h.1).enclosed .access
    exact (Derives.call dcallee (derives_printedItems args h.2)).loosen (by decide)

theorem derives_printedItems : ∀ items : List Expr, arePrintable items = true →
    DerivesSequence (printedItems items) items
  | [], _ => .nil
  | item :: items, h => by
    simp only [arePrintable, Bool.and_eq_true] at h
    exact .plain (derives_printedMore items h.2 ((derives_printed item h.1).enclosed .or))

theorem derives_printedMore : ∀ items : List Expr, arePrintable items = true →
    ∀ {ts : List Token} {item : Expr}, Derives .or ts item →
      DerivesItems (ts ++ printedMore items) (item :: items)
  | [], _, _, _, ditem => by
    rw [printedMore, List.append_nil]
    exact .one ditem
  | next :: items, h, _, _, ditem => by
    simp only [arePrintable, Bool.and_eq_true] at h
    exact .more ditem (derives_printedMore items h.2 ((derives_printed next h.1).enclosed .or))

theorem derives_printedLinks : ∀ links : List Link, linksArePrintable links = true →
    DerivesLinks (printedLinks links) links
  | [], _ => .nil
  | .mk op operand :: links, h => by
    simp only [linksArePrintable, Bool.and_eq_true] at h
    exact .cons op ((derives_printed operand h.1).enclosed .sum) (derives_printedLinks links h.2)

end

/-- The reader accepts the grammar and nothing else, gives the tree that the grammar prescribes, and
reads back what is printed. -/
theorem parse_follows_grammar :
    (∀ (ts : List Token) (e : Expr), parse ts = .ok e ↔ Derives .or ts e) ∧
    (∀ (ts : List Token) (e e' : Expr), Derives .or ts e → Derives .or ts e' → e = e') ∧
    ∀ e : Expr, e.isPrintable = true → parse e.printed = .ok e := by
  refine ⟨fun ts e => parse_eq_ok, ?_, ?_⟩
  · intro ts e e' h h'
    have heq : Except.ok e = Except.ok e' := (parse_of_derives h).symm.trans (parse_of_derives h')
    cases heq
    rfl
  · intro e h
    exact parse_of_derives (derives_printed e h)

/-- The tokens of `price + 2 * -rebate < purse[0]`. -/
def priceTokens : List Token :=
  [.name "price", .sign .plus, .int 2, .sign .star, .sign .minus, .name "rebate", .sign .less,
    .name "purse", .sign .openBracket, .int 0, .sign .closeBracket]

/-- The product is an operand of the sum, and the sum one of the comparison. -/
def priceTree : Expr :=
  .compare
    (.binary .add (.name "price")
      (.binary .multiply (.literal (.int 2)) (.unary .negate (.name "rebate"))))
    [.mk .lessThan (.index (.name "purse") (.literal (.int 0)))]

/-- The tokens have this tree and no other one, and the tree is read back from many parentheses. -/
theorem parse_follows_grammar_price :
    parse priceTokens = .ok priceTree ∧
      (∀ e, Derives .or priceTokens e ↔ e = priceTree) ∧
      priceTree.printed.length = 29 ∧ parse priceTree.printed = .ok priceTree := by
  obtain ⟨parse_iff, derives_unique, parse_printed⟩ := parse_follows_grammar
  have hparse : parse priceTokens = .ok priceTree := rfl
  have hderives := (parse_iff _ _).mp hparse
  refine ⟨hparse, fun e => ⟨fun h => derives_unique _ _ _ h hderives, ?_⟩, rfl,
    parse_printed _ rfl⟩
  rintro rfl
  exact hderives

end Expr

end Parlance
