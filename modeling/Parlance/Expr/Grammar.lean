import Parlance.Expr.Basic
import Parlance.Expr.Token

/-!
# From tokens to trees

A recursive-descent reader. From loose to tight the levels are `or`, `and`, `not`, comparisons, sums,
products, signs, powers, and indexing and calls. Sums, products, `and` and `or` group to the left;
a power groups to the right and its exponent may carry a sign.
-/

namespace Parlance

/-- Why a list of tokens is not an expression. -/
inductive ParseFault where
  | empty
  | unexpected (token : Token)
  | expected (wanted : Sign) (found : Token)
  | expectedAtEnd (wanted : Sign)
  | ended

/-- The wording of a fault. -/
def ParseFault.message (heap : Heap) : ParseFault → String
  | .empty => "empty expression"
  | .unexpected token => "unexpected " ++ token.describe heap
  | .expected wanted found =>
    "expected " ++ (Token.sign wanted).describe heap ++ " but found " ++ found.describe heap
  | .expectedAtEnd wanted =>
    "expected " ++ (Token.sign wanted).describe heap ++ " at end of expression"
  | .ended => "unexpected end of expression"

namespace Expr

/-- Passes over a sign that has to come next. -/
def expect (wanted : Sign) : List Token → Except ParseFault (List Token)
  | [] => .error (.expectedAtEnd wanted)
  | token :: rest =>
    if token.isSign wanted then .ok rest else .error (.expected wanted token)

/-- The comparison operator at the front of the tokens, with the tokens behind it. -/
def compareOp? : List Token → Option (CompareOp × List Token)
  | .sign .equal :: rest => some (.equal, rest)
  | .sign .notEqual :: rest => some (.notEqual, rest)
  | .sign .less :: rest => some (.lessThan, rest)
  | .sign .lessEqual :: rest => some (.lessEqual, rest)
  | .sign .greater :: rest => some (.greaterThan, rest)
  | .sign .greaterEqual :: rest => some (.greaterEqual, rest)
  | .keyword .within :: rest => some (.within, rest)
  | .keyword .not :: .keyword .within :: rest => some (.notWithin, rest)
  | _ => none

/-- The operator of a sum at the front of the tokens. -/
def additiveOp? : List Token → Option (BinaryOp × List Token)
  | .sign .plus :: rest => some (.add, rest)
  | .sign .minus :: rest => some (.subtract, rest)
  | _ => none

/-- The operator of a product at the front of the tokens. -/
def termOp? : List Token → Option (BinaryOp × List Token)
  | .sign .star :: rest => some (.multiply, rest)
  | .sign .slash :: rest => some (.divide, rest)
  | .sign .slashSlash :: rest => some (.floorDivide, rest)
  | .sign .percent :: rest => some (.modulo, rest)
  | _ => none

mutual

/-- `and` expressions joined by `or`. Every reader returns a tree and the tokens behind it, and its
first argument bounds the depth of the reading. -/
def readOr : Nat → List Token → Except ParseFault (Expr × List Token)
  | 0, _ => .error .ended
  | fuel + 1, tokens => do
    let (left, rest) ← readAnd fuel tokens
    readOrTail fuel left rest

/-- What follows the left side of an `or`. -/
def readOrTail : Nat → Expr → List Token → Except ParseFault (Expr × List Token)
  | 0, _, _ => .error .ended
  | fuel + 1, left, .keyword .or :: tokens => do
    let (right, rest) ← readAnd fuel tokens
    readOrTail fuel (.or left right) rest
  | _, left, tokens => .ok (left, tokens)

/-- `not` expressions joined by `and`. -/
def readAnd : Nat → List Token → Except ParseFault (Expr × List Token)
  | 0, _ => .error .ended
  | fuel + 1, tokens => do
    let (left, rest) ← readNot fuel tokens
    readAndTail fuel left rest

/-- What follows the left side of an `and`. -/
def readAndTail : Nat → Expr → List Token → Except ParseFault (Expr × List Token)
  | 0, _, _ => .error .ended
  | fuel + 1, left, .keyword .and :: tokens => do
    let (right, rest) ← readNot fuel tokens
    readAndTail fuel (.and left right) rest
  | _, left, tokens => .ok (left, tokens)

/-- A comparison behind any number of `not`s. -/
def readNot : Nat → List Token → Except ParseFault (Expr × List Token)
  | 0, _ => .error .ended
  | fuel + 1, .keyword .not :: tokens => do
    let (operand, rest) ← readNot fuel tokens
    return (.unary .not operand, rest)
  | fuel + 1, tokens => readComparison fuel tokens

/-- A chain of comparisons; without any, the first sum stands alone. -/
def readComparison : Nat → List Token → Except ParseFault (Expr × List Token)
  | 0, _ => .error .ended
  | fuel + 1, tokens => do
    let (first, rest) ← readSum fuel tokens
    let (links, rest) ← readLinks fuel rest
    return (if links.isEmpty then first else .compare first links, rest)

/-- The steps of a comparison chain. -/
def readLinks : Nat → List Token → Except ParseFault (List Link × List Token)
  | 0, _ => .error .ended
  | fuel + 1, tokens =>
    match compareOp? tokens with
    | none => .ok ([], tokens)
    | some (op, tokens) => do
      let (operand, rest) ← readSum fuel tokens
      let (links, rest) ← readLinks fuel rest
      return (.mk op operand :: links, rest)

/-- Products joined by `+` and `-`. -/
def readSum : Nat → List Token → Except ParseFault (Expr × List Token)
  | 0, _ => .error .ended
  | fuel + 1, tokens => do
    let (left, rest) ← readTerm fuel tokens
    readSumTail fuel left rest

/-- What follows the left side of a sum. -/
def readSumTail : Nat → Expr → List Token → Except ParseFault (Expr × List Token)
  | 0, _, _ => .error .ended
  | fuel + 1, left, tokens =>
    match additiveOp? tokens with
    | none => .ok (left, tokens)
    | some (op, tokens) => do
      let (right, rest) ← readTerm fuel tokens
      readSumTail fuel (.binary op left right) rest

/-- Signed operands joined by `*`, `/`, `//` and `%`. -/
def readTerm : Nat → List Token → Except ParseFault (Expr × List Token)
  | 0, _ => .error .ended
  | fuel + 1, tokens => do
    let (left, rest) ← readUnary fuel tokens
    readTermTail fuel left rest

/-- What follows the left side of a product. -/
def readTermTail : Nat → Expr → List Token → Except ParseFault (Expr × List Token)
  | 0, _, _ => .error .ended
  | fuel + 1, left, tokens =>
    match termOp? tokens with
    | none => .ok (left, tokens)
    | some (op, tokens) => do
      let (right, rest) ← readUnary fuel tokens
      readTermTail fuel (.binary op left right) rest

/-- A power behind any number of signs. -/
def readUnary : Nat → List Token → Except ParseFault (Expr × List Token)
  | 0, _ => .error .ended
  | fuel + 1, .sign .minus :: tokens => do
    let (operand, rest) ← readUnary fuel tokens
    return (.unary .negate operand, rest)
  | fuel + 1, .sign .plus :: tokens => do
    let (operand, rest) ← readUnary fuel tokens
    return (.unary .plus operand, rest)
  | fuel + 1, tokens => readPower fuel tokens

/-- An operand with an optional exponent. -/
def readPower : Nat → List Token → Except ParseFault (Expr × List Token)
  | 0, _ => .error .ended
  | fuel + 1, tokens => do
    let (base, rest) ← readPostfix fuel tokens
    match rest with
    | .sign .starStar :: rest => do
      let (exponent, rest) ← readUnary fuel rest
      return (.binary .power base exponent, rest)
    | _ => return (base, rest)

/-- An operand with any number of indexes and calls. -/
def readPostfix : Nat → List Token → Except ParseFault (Expr × List Token)
  | 0, _ => .error .ended
  | fuel + 1, tokens => do
    let (operand, rest) ← readPrimary fuel tokens
    readPostfixTail fuel operand rest

/-- The indexes and calls behind an operand. -/
def readPostfixTail : Nat → Expr → List Token → Except ParseFault (Expr × List Token)
  | 0, _, _ => .error .ended
  | fuel + 1, target, .sign .openBracket :: tokens => do
    let (inner, rest) ← readOr fuel tokens
    let rest ← expect .closeBracket rest
    readPostfixTail fuel (.index target inner) rest
  | fuel + 1, target, .sign .openParen :: tokens => do
    let (args, rest) ← readSequence fuel .closeParen tokens
    readPostfixTail fuel (.call target args) rest
  | _, target, tokens => .ok (target, tokens)

/-- Expressions between commas up to a closing sign; a comma may stand before the sign. -/
def readSequence : Nat → Sign → List Token → Except ParseFault (List Expr × List Token)
  | 0, _, _ => .error .ended
  | fuel + 1, close, tokens =>
    match tokens with
    | token :: rest =>
      if token.isSign close then .ok ([], rest) else readItems fuel close tokens
    | [] => readItems fuel close tokens

/-- One expression of a sequence and what follows it. -/
def readItems : Nat → Sign → List Token → Except ParseFault (List Expr × List Token)
  | 0, _, _ => .error .ended
  | fuel + 1, close, tokens => do
    let (item, rest) ← readOr fuel tokens
    match rest with
    | .sign .comma :: rest => do
      let (items, rest) ← readSequence fuel close rest
      return (item :: items, rest)
    | _ => do
      let rest ← expect close rest
      return ([item], rest)

/-- A literal, a name, an expression in parentheses or a list. -/
def readPrimary : Nat → List Token → Except ParseFault (Expr × List Token)
  | 0, _ => .error .ended
  | _, [] => .error .ended
  | fuel + 1, token :: tokens =>
    match token with
    | .int i => .ok (.literal (.int i), tokens)
    | .float f => .ok (.literal (.float f), tokens)
    | .str s => .ok (.literal (.str s), tokens)
    | .value v => .ok (.literal v, tokens)
    | .keyword .yes => .ok (.literal (.bool true), tokens)
    | .keyword .no => .ok (.literal (.bool false), tokens)
    | .keyword .nothing => .ok (.literal .none, tokens)
    | .name n => .ok (.name n, tokens)
    | .sign .openParen => do
      let (inner, rest) ← readOr fuel tokens
      let rest ← expect .closeParen rest
      return (inner, rest)
    | .sign .openBracket => do
      let (items, rest) ← readSequence fuel .closeBracket tokens
      return (.list items, rest)
    | other => .error (.unexpected other)

end

/-- A depth that no reading of the tokens exceeds: between two tokens fewer than twelve levels are
entered. -/
def depthBound (tokens : List Token) : Nat :=
  12 * (tokens.length + 1)

/-- The tree of a list of tokens, all of which have to be used. -/
def parse (tokens : List Token) : Except ParseFault Expr :=
  if tokens.isEmpty then .error .empty
  else
    match readOr (depthBound tokens) tokens with
    | .error fault => .error fault
    | .ok (e, []) => .ok e
    | .ok (_, token :: _) => .error (.unexpected token)

end Expr

end Parlance
