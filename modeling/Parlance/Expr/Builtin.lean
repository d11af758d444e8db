import Parlance.Value.Arithmetic
import Parlance.Value.Order

/-!
# Built-in functions

The fixed set of functions that expressions can call.
-/

namespace Parlance

/-- The built-in functions. -/
inductive Builtin where
  | sqrt
  | pow
  | abs
  | round
  | floor
  | ceil
  | random
  | randint
  | min
  | max
  | sum
  | len
  | str
  | list
  deriving DecidableEq, Repr

namespace Builtin

/-- All built-in functions. -/
def all : List Builtin :=
  [.sqrt, .pow, .abs, .round, .floor, .ceil, .random, .randint, .min, .max, .sum, .len, .str, .list]

/-- The name of a built-in function. -/
def name : Builtin → String
  | .sqrt => "sqrt"
  | .pow => "pow"
  | .abs => "abs"
  | .round => "round"
  | .floor => "floor"
  | .ceil => "ceil"
  | .random => "random"
  | .randint => "randint"
  | .min => "min"
  | .max => "max"
  | .sum => "sum"
  | .len => "len"
  | .str => "str"
  | .list => "list"

/-- The built-in function with a given name. -/
def ofName? (text : String) : Option Builtin :=
  all.find? fun b => b.name == text

/-- The failure of a call with the wrong number of arguments. -/
def arityError (b : Builtin) (expected : Nat) (args : List Value) : Error :=
  .arity b.name expected args.length

/-- The failure of a call whose argument is of the wrong kind. -/
def operandError (b : Builtin) (expected : String) (v : Value) : Error :=
  .operandKind (b.name ++ "()") expected v.kind

/-- The double behind an argument. -/
def number (b : Builtin) (v : Value) : Except Error Float :=
  match v.float? with
  | some f => .ok f
  | none => .error (b.operandError "a number" v)

/-- The integer behind an argument; a float does not count, even if it is whole. -/
def integer (b : Builtin) (v : Value) : Except Error Int64 :=
  match v.num? with
  | some (.int i) => .ok i
  | _ => .error (b.operandError "an integer" v)

/-- A whole double as an integer, if it is well within the 64-bit range. -/
def wholeValue (f : Float) : Except Error Value :=
  match Binary64.truncate? f with
  | none => .error (.notWhole f)
  | some i => .ok (if f.abs < 9.2e18 then .int (Number.clampInt64 i) else .float f)

/-- The square root of a number that is not negative. -/
def callSqrt : List Value → Except Error Value
  | [x] => do
    let x ← number .sqrt x
    if x < 0.0 then throw .mathDomain
    return .float x.sqrt
  | args => .error (arityError .sqrt 1 args)

/-- A power in floating point. -/
def callPow : List Value → Except Error Value
  | [x, y] => do
    let base ← number .pow x
    let exponent ← number .pow y
    let result := Float.pow base exponent
    if result.isNaN || (base == 0.0 && exponent < 0.0) then throw .mathDomain
    return .float result
  | args => .error (arityError .pow 2 args)

/-- The magnitude of a number. -/
def callAbs : List Value → Except Error Value
  | [x] =>
    match x.num? with
    | some (.int i) =>
      .ok (Value.integerOr i.toInt.natAbs (Binary64.ofInt i.toInt).abs)
    | some (.float f) => .ok (.float f.abs)
    | none => .error (operandError .abs "a number" x)
  | args => .error (arityError .abs 1 args)

/-- Rounds to a whole number, or to a number of decimal places; a half goes to the even side. -/
def callRound : List Value → Except Error Value
  | [x] =>
    match x.num? with
    | some (.int i) => .ok (.int i)
    | some (.float f) => wholeValue (Binary64.roundEven f)
    | none => .error (operandError .round "a number" x)
  | [x, places] => do
    let places ← integer .round places
    if 0 ≤ places.toInt && x.kind == .integer then return x
    let value ← number .round x
    let scale := Binary64.powInt 10.0 (Max.max (-308) (Min.min 308 places.toInt))
    let scaled := value * scale
    if !Binary64.isFinite scaled then return .float value
    return .float (Binary64.roundEven scaled / scale)
  | args => .error (arityError .round 1 args)

/-- Applies a rounding rule and gives an integer. -/
def callWhole (b : Builtin) (rule : Float → Float) : List Value → Except Error Value
  | [x] => do
    let x ← number b x
    wholeValue (rule x)
  | args => .error (arityError b 1 args)

/-- A random number from zero up to one. -/
def callRandom : List Value → Eval Value
  | [] => do
    let f ← Eval.draw Random.unit
    return .float f
  | args => throw (arityError .random 0 args)

/-- A random integer between two bounds. -/
def callRandint : List Value → Eval Value
  | [x, y] => do
    let low ← integer .randint x
    let high ← integer .randint y
    if high.toInt < low.toInt then throw (.emptyRange low high)
    let i ← Eval.draw (Random.between low high)
    return .int i
  | args => throw (arityError .randint 2 args)

/-- The texts of the single characters of a text. -/
def charValues (s : String) : List Value :=
  s.toList.map fun c => .str (String.ofList [c])

/-- Of a list, a text's characters or several arguments: what the extreme is taken of. -/
def candidates (heap : Heap) : List Value → List Value
  | [.list cell] => heap.items cell
  | [.str s] => charValues s
  | args => args

/-- The first candidate that none of the others lies beyond in the wanted direction. -/
def extremeFrom (heap : Heap) (symbol : String) (wanted : Ordering) (best : Value) :
    List Value → Except Error Value
  | [] => .ok best
  | candidate :: rest => do
    let order ← Value.order heap symbol candidate best
    extremeFrom heap symbol wanted (if order == some wanted then candidate else best) rest

/-- The least or greatest of some values. -/
def callExtreme (b : Builtin) (symbol : String) (wanted : Ordering) (heap : Heap)
    (args : List Value) : Except Error Value :=
  match candidates heap args with
  | [] => .error (.emptySequence b.name)
  | first :: rest => extremeFrom heap symbol wanted first rest

/-- Adds the elements of a list to a starting value, from left to right. -/
def sumFrom (start sequence : Value) : Eval Value := do
  match sequence with
  | .list cell =>
    if start.kind == .string then throw .sumOfTexts
    let items := (← Eval.heap).items cell
    items.foldlM Value.add start
  | other => throw (.notIterable other.kind)

/-- The sum of a list, from zero or a given start. -/
def callSum : List Value → Eval Value
  | [sequence] => sumFrom (.int 0) sequence
  | [sequence, start] => sumFrom start sequence
  | args => throw (arityError .sum 1 args)

/-- How many characters, elements or properties a value has. -/
def callLen (heap : Heap) : List Value → Except Error Value
  | [.str s] => .ok (.int (Int64.ofNat s.length))
  | [.list cell] => .ok (.int (Int64.ofNat (heap.items cell).length))
  | [.record cell] => .ok (.int (Int64.ofNat (heap.fields cell).length))
  | [other] => .error (.noLength other.kind)
  | args => .error (arityError .len 1 args)

/-- A value as a text. -/
def callStr (heap : Heap) : List Value → Except Error Value
  | [] => .ok (.str "")
  | [v] => .ok (.str (v.display heap))
  | args => .error (arityError .str 1 args)

/-- A new list of characters, elements or keys. -/
def callList (args : List Value) : Eval Value := do
  let heap ← Eval.heap
  match args with
  | [] => Eval.newList []
  | [.str s] => Eval.newList (charValues s)
  | [.list cell] => Eval.newList (heap.items cell)
  | [.record cell] => Eval.newList ((heap.fields cell).names.map .str)
  | [other] => throw (.notIterable other.kind)
  | _ => throw (arityError .list 1 args)

/-- Calls a built-in function. -/
def call (b : Builtin) (args : List Value) : Eval Value := do
  match b with
  | .sqrt => callSqrt args
  | .pow => callPow args
  | .abs => callAbs args
  | .round => callRound args
  | .floor => callWhole .floor Binary64.floor args
  | .ceil => callWhole .ceil Binary64.ceil args
  | .random => callRandom args
  | .randint => callRandint args
  | .min => callExtreme .min "<" .lt (← Eval.heap) args
  | .max => callExtreme .max ">" .gt (← Eval.heap) args
  | .sum => callSum args
  | .len => callLen (← Eval.heap) args
  | .str => callStr (← Eval.heap) args
  | .list => callList args

end Builtin

end Parlance
