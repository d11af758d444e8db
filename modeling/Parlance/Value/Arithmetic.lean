import Parlance.Number.Division
import Parlance.Store

/-!
# Arithmetic on values

Integer results are exact; one that does not fit into 64 bits is computed again in floating point.
Addition also joins texts and lists, multiplication also repeats them.
-/

namespace Parlance

/-- The arithmetic operators. -/
inductive BinaryOp where
  | add
  | subtract
  | multiply
  | divide
  | floorDivide
  | modulo
  | power
  deriving DecidableEq, Repr

/-- How an operator is written. -/
def BinaryOp.symbol : BinaryOp → String
  | .add => "+"
  | .subtract => "-"
  | .multiply => "*"
  | .divide => "/"
  | .floorDivide => "//"
  | .modulo => "%"
  | .power => "**"

/-- The operators with one operand. -/
inductive UnaryOp where
  | negate
  | plus
  | not
  deriving DecidableEq, Repr

namespace Value

/-- The integer `exact` if it fits into 64 bits, and the float `rough` otherwise. -/
def integerOr (exact : Int) (rough : Float) : Value :=
  match Number.toInt64? exact with
  | some i => .int i
  | Option.none => .float rough

/-- Applies a numeric operator: `whole` to two integers, and `real` to the doubles of any other pair
of numbers and of integers for which `whole` has no result. -/
def numeric (op : BinaryOp) (whole : Int64 → Int64 → Option Int64) (real : Float → Float → Float)
    (left right : Value) : Except Error Value :=
  match left.num?, right.num? with
  | some (.int l), some (.int r) =>
    match whole l r with
    | some i => .ok (.int i)
    | Option.none => .ok (.float (real (Binary64.ofInt l.toInt) (Binary64.ofInt r.toInt)))
  | some l, some r => .ok (.float (real l.toFloat r.toFloat))
  | _, _ => .error (.operandKinds op.symbol left.kind right.kind)

/-- Applies a numeric operator whose integer result is exact when it fits into 64 bits. -/
def exactNumeric (op : BinaryOp) (whole : Int → Int → Int) (real : Float → Float → Float)
    (left right : Value) : Except Error Value :=
  numeric op (fun l r => Number.toInt64? (whole l.toInt r.toInt)) real left right

/-- The sum of two values: texts and lists are joined, numbers added. -/
def add (left right : Value) : Eval Value := do
  match left, right with
  | .str l, .str r => return .str (l ++ r)
  | .list l, .list r =>
    let heap ← Eval.heap
    Eval.newList (heap.items l ++ heap.items r)
  | _, _ => exactNumeric .add (· + ·) (· + ·) left right

/-- The difference of two numbers. -/
def subtract (left right : Value) : Except Error Value :=
  exactNumeric .subtract (· - ·) (· - ·) left right

/-- The greatest length, in bytes or elements, that a repetition may have. -/
def maxRepeated : Nat :=
  1 <<< 24

/-- How often a value says to repeat: an integer or a truth value does, a negative one not at
all. -/
def repeatCount? : Value → Option Nat
  | .int i => some i.toInt.toNat
  | .bool b => some (if b then 1 else 0)
  | _ => Option.none

/-- A text several times over. -/
def repeatText (s : String) (count : Nat) : Except Error Value :=
  if maxRepeated < s.utf8ByteSize * count then .error .repeatedTooLong
  else if s.isEmpty then .ok (.str "")
  else .ok (.str (Nat.repeat (· ++ s) count ""))

/-- A list several times over. -/
def repeatList (cell count : Nat) : Eval Value := do
  let items := (← Eval.heap).items cell
  if maxRepeated < items.length * count then throw .repeatedTooLong
  else if items.isEmpty then Eval.newList []
  else Eval.newList (Nat.repeat (items ++ ·) count [])

/-- The product of two values: a text or a list is repeated by a count on either side, numbers are
multiplied. -/
def multiply (left right : Value) : Eval Value := do
  match left, right, left.repeatCount?, right.repeatCount? with
  | .str s, _, _, some count => repeatText s count
  | _, .str s, some count, _ => repeatText s count
  | .list cell, _, _, some count => repeatList cell count
  | _, .list cell, some count, _ => repeatList cell count
  | _, _, _, _ => exactNumeric .multiply (· * ·) (· * ·) left right

/-- Whether a value is a number equal to zero. -/
def isZero (v : Value) : Bool :=
  match v.float? with
  | some f => f == 0.0
  | Option.none => false

/-- The quotient of two numbers, always a float. -/
def divide (left right : Value) : Except Error Value :=
  match left.float?, right.float? with
  | some l, some r => if r == 0.0 then .error .divisionByZero else .ok (.float (l / r))
  | _, _ => .error (.operandKinds BinaryOp.divide.symbol left.kind right.kind)

/-- The quotient of two numbers, rounded down. -/
def floorDivide (left right : Value) : Except Error Value :=
  if right.isZero && left.num?.isSome then .error .divisionByZero
  else numeric .floorDivide Number.floorQuotient? (fun a b => Binary64.floor (a / b)) left right

/-- The remainder of two doubles, with the sign of the divisor. -/
def moduloFloat (a b : Float) : Float :=
  let r := Binary64.remainder a b
  if r != 0.0 && (decide (r < 0.0) != decide (b < 0.0)) then r + b else r

/-- The remainder of two numbers, with the sign of the divisor. -/
def modulo (left right : Value) : Except Error Value :=
  if right.isZero && left.num?.isSome then .error .divisionByZero
  else numeric .modulo Number.floorRemainder? moduloFloat left right

/-- The power of an integer if it fits into 64 bits. Exponents of 2^32 and more are left to floating
point, whatever the base. -/
def powerInt? (base : Int) (exponent : Nat) : Option Int64 :=
  if UInt32.size ≤ exponent then Option.none
  else if base.natAbs ≤ 1 then
    if exponent == 0 then some 1
    else if base == -1 && exponent % 2 == 0 then some 1
    else Number.toInt64? base
  else if 64 ≤ exponent then Option.none
  else Number.toInt64? (base.pow exponent)

/-- The power of two numbers. -/
def power (left right : Value) : Except Error Value :=
  match left.num?, right.num? with
  | some base, some exponent =>
    if base.toFloat == 0.0 && exponent.toFloat < 0.0 then .error .divisionByZero
    else
      let real := Float.pow base.toFloat exponent.toFloat
      match base, exponent with
      | .int b, .int e =>
        if 0 ≤ e.toInt then
          match powerInt? b.toInt e.toInt.toNat with
          | some i => .ok (.int i)
          | Option.none => .ok (.float real)
        else if real.isNaN then .error .mathDomain
        else .ok (.float real)
      | _, _ => if real.isNaN then .error .mathDomain else .ok (.float real)
  | _, _ => .error (.operandKinds BinaryOp.power.symbol left.kind right.kind)

/-- Applies an arithmetic operator. -/
def binary (op : BinaryOp) (left right : Value) : Eval Value := do
  match op with
  | .add => add left right
  | .subtract => subtract left right
  | .multiply => multiply left right
  | .divide => divide left right
  | .floorDivide => floorDivide left right
  | .modulo => modulo left right
  | .power => power left right

/-- The negative of a number. -/
def negate (v : Value) : Except Error Value :=
  match v.num? with
  | some (.int i) => .ok (integerOr (-i.toInt) (-(Binary64.ofInt i.toInt)))
  | some (.float f) => .ok (.float (-f))
  | Option.none => .error (.operandKind "unary -" "a number" v.kind)

/-- A number as it is; a truth value becomes an integer. -/
def plus (v : Value) : Except Error Value :=
  match v.num? with
  | some (.int i) => .ok (.int i)
  | some (.float f) => .ok (.float f)
  | Option.none => .error (.operandKind "unary +" "a number" v.kind)

/-- Applies an operator with one operand. -/
def unary (op : UnaryOp) (v : Value) : Eval Value := do
  match op with
  | .not => return .bool (!v.isTruthy (← Eval.heap))
  | .plus => v.plus
  | .negate => v.negate

end Value

end Parlance
