import Parlance.Value.Arithmetic
import Parlance.Value.Order

/-!
# Expressions

The tree of an expression. A comparison holds a whole chain, because `a < b < c` compares
neighbours and evaluates `b` once.
-/

namespace Parlance

mutual

/-- An expression. -/
inductive Expr where
  | literal (v : Value)
  /-- A name that was not resolved: a built-in function or an undefined variable. -/
  | name (n : String)
  | list (items : List Expr)
  | unary (op : UnaryOp) (operand : Expr)
  | binary (op : BinaryOp) (left right : Expr)
  /-- A chain of comparisons between neighbours. -/
  | compare (first : Expr) (links : List Link)
  | and (left right : Expr)
  | or (left right : Expr)
  | index (target index : Expr)
  | call (callee : Expr) (args : List Expr)

/-- One step of a comparison chain. -/
inductive Link where
  | mk (op : CompareOp) (operand : Expr)

end

instance : Inhabited Expr :=
  ⟨.literal .none⟩

end Parlance
