import Parlance.Number.Written
import Parlance.Value.Basic

/-!
# What can go wrong in a run

Every cause of a failure is a constructor; its class and its wording are functions of the cause.
The wording is what a program's author sees, and what a handler finds under the name `error`.
-/

namespace Parlance

/-- The classes of failures. -/
inductive ErrorClass where
  | name
  | index
  | zeroDivision
  | malformed
  | type
  | value
  | run
  | host
  deriving DecidableEq, Repr

/-- The causes of failures. -/
inductive Error where
  /-- A name is not bound. -/
  | undefined (name : String)
  /-- An index, as shown, does not select an element. -/
  | badIndex (shown : String)
  | divisionByZero
  /-- A text is not an expression. -/
  | malformed (what : String)
  /-- Two operands do not go with an operator. -/
  | operandKinds (operator : String) (left right : Kind)
  /-- An operand is not of the kind that is needed. -/
  | operandKind (operation expected : String) (actual : Kind)
  | notOrdered (symbol : String) (left right : Kind)
  | notSearchable (container : Kind)
  | notInText (item : Kind)
  | notSubscriptable (target : Kind)
  | notCallable (callee : Kind)
  | notIterable (value : Kind)
  | noLength (value : Kind)
  | mustBeCalled (function : String)
  | arity (function : String) (expected given : Nat)
  | sumOfTexts
  | notACount (value : Kind)
  /-- A list or record reaches itself where a copy is needed. -/
  | selfContaining
  | mathDomain
  | repeatedTooLong
  | emptyRange (low high : Int64)
  | emptySequence (function : String)
  | notWhole (value : Float)
  | notAnInteger (text : String)
  /-- Two lists that reach themselves cannot be ordered. -/
  | endlessComparison
  | undefinedFunction (name : String)
  | callsTooDeep
  | strayBreak
  | strayContinue
  | endOfInput
  | inputTimeout (milliseconds : Nat)
  | inputNotText
  | cannotRead (path reason : String)
  | cannotWrite (path reason : String)

namespace Error

/-- The class of a failure. -/
def errorClass : Error → ErrorClass
  | undefined _ => .name
  | badIndex _ => .index
  | divisionByZero => .zeroDivision
  | malformed _ => .malformed
  | operandKinds .. | operandKind .. | notOrdered .. | notSearchable _ | notInText _
  | notSubscriptable _ | notCallable _ | notIterable _ | noLength _ | mustBeCalled _ | arity ..
  | sumOfTexts | notACount _ => .type
  | selfContaining | mathDomain | repeatedTooLong | emptyRange .. | emptySequence _ | notWhole _
  | notAnInteger _ => .value
  | endlessComparison | undefinedFunction _ | callsTooDeep | strayBreak | strayContinue => .run
  | endOfInput | inputTimeout _ | inputNotText | cannotRead .. | cannotWrite .. => .host

/-- The wording of a failure. -/
def message : Error → String
  | undefined name => s!"Variable '{name}' is not defined"
  | badIndex shown => s!"Index out of range or invalid: {shown}"
  | divisionByZero => "division by zero"
  | malformed what => s!"invalid syntax: {what}"
  | operandKinds operator left right =>
    s!"unsupported operand types for {operator}: '{left.name}' and '{right.name}'"
  | operandKind operation expected actual =>
    s!"{operation} requires {expected}, got '{actual.name}'"
  | notOrdered symbol left right =>
    s!"'{symbol}' not supported between instances of '{left.name}' and '{right.name}'"
  | notSearchable container => s!"argument of type '{container.name}' is not iterable"
  | notInText item => s!"'in <string>' requires string as left operand, not {item.name}"
  | notSubscriptable target => s!"'{target.name}' object is not subscriptable"
  | notCallable callee => s!"'{callee.name}' object is not callable"
  | notIterable value => s!"'{value.name}' object is not iterable"
  | noLength value => s!"object of type '{value.name}' has no len()"
  | mustBeCalled function => s!"built-in function '{function}' must be called"
  | arity function expected given =>
    let noun := if expected == 1 then "argument" else "arguments"
    s!"{function}() takes {Number.writeInt expected} {noun} ({Number.writeInt given} given)"
  | sumOfTexts => "sum() can't sum strings"
  | notACount value => s!"int() argument must be a string or a number, not '{value.name}'"
  | selfContaining => "a list or record that contains itself cannot be used here"
  | mathDomain => "math domain error"
  | repeatedTooLong => "repeated sequence is too long"
  | emptyRange low high =>
    s!"empty range for randint({Number.writeInt low.toInt}, {Number.writeInt high.toInt})"
  | emptySequence function => s!"{function}() arg is an empty sequence"
  | notWhole value => s!"cannot convert float {Number.writeFloat value} to integer"
  | notAnInteger text => s!"invalid literal for int() with base 10: '{text}'"
  | endlessComparison => "maximum recursion depth exceeded in comparison"
  | undefinedFunction name => s!"Function '{name}' not defined"
  | callsTooDeep => "maximum recursion depth exceeded"
  | strayBreak => "'break' outside loop"
  | strayContinue => "'continue' not properly in loop"
  | endOfInput => "EOF when reading a line"
  | inputTimeout milliseconds =>
    s!"timed out waiting for input after {Number.writeInt milliseconds} ms"
  | inputNotText => "stream did not contain valid UTF-8"
  | cannotRead path reason => s!"cannot read '{path}': {reason}"
  | cannotWrite path reason => s!"cannot write '{path}': {reason}"

end Error

end Parlance
