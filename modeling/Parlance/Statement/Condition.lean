import Parlance.Text.Cut

/-!
# Conditions in words

Conditions may compare in words. The words are replaced by operators as plain text, one phrase after
another: first an `is` that only leads up to another phrase is dropped, then the phrases become
operators.
-/

namespace Parlance.Condition

/-- Phrases in which `is` adds nothing, and what remains of them. -/
def leadingIs : List (String × String) :=
  [(" is greater than ", " greater than "),
    (" is less than ", " less than "),
    (" is bigger than ", " bigger than "),
    (" is smaller than ", " smaller than "),
    (" is not ", " not ")]

/-- Phrases and the operators that they stand for. -/
def operatorWords : List (String × String) :=
  [(" is ", " == "),
    (" equals ", " == "),
    (" greater than ", " > "),
    (" less than ", " < "),
    (" bigger than ", " > "),
    (" smaller than ", " < "),
    (" not ", " != ")]

/-- A condition with operators in the place of words, over characters. -/
def withOperators (condition : List Char) : List Char :=
  (leadingIs ++ operatorWords).foldl
    (fun text phrase => Text.replaceAll phrase.1.toList phrase.2.toList text)
    condition

/-- A condition with operators in the place of words. -/
def toExpression (condition : String) : String :=
  String.ofList (withOperators condition.toList)

end Parlance.Condition
