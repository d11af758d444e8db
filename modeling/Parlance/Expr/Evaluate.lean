import Parlance.Expr.Builtin
import Parlance.Expr.Grammar
import Parlance.Expr.Joining
import Parlance.Expr.Phrase

/-!
# Evaluating expressions

A tree evaluates from left to right. A text is first resolved: a bracketed list is tried as it
stands; then a single name, an indexed name and a whole property phrase give the stored value
itself; in any other text, properties and variables are replaced by copies of their values before
the tree is read.
-/

namespace Parlance

namespace Expr

mutual

/-- Evaluates an expression. -/
def eval : Expr → Eval Value
  | .literal v => return v
  | .name n => throw (if (Builtin.ofName? n).isSome then .mustBeCalled n else .undefined n)
  | .list items => do
    let values ← evalAll items
    Eval.newList values
  | .unary op operand => do
    let v ← eval operand
    Value.unary op v
  | .binary op left right => do
    let l ← eval left
    let r ← eval right
    Value.binary op l r
  | .compare first links => do
    let v ← eval first
    evalLinks v links
  | .and left right => do
    let l ← eval left
    if l.isTruthy (← Eval.heap) then eval right else return l
  | .or left right => do
    let l ← eval left
    if l.isTruthy (← Eval.heap) then return l else eval right
  | .index target place => do
    let t ← eval target
    let i ← eval place
    Value.index (← Eval.heap) t i
  | .call callee args =>
    match callee with
    | .name n =>
      match Builtin.ofName? n with
      | some b => do
        let values ← evalAll args
        b.call values
      | none => throw (.undefined n)
    | other => do
      let v ← eval other
      throw (.notCallable v.kind)

/-- Evaluates expressions from left to right. -/
def evalAll : List Expr → Eval (List Value)
  | [] => return []
  | e :: es => do
    let v ← eval e
    let vs ← evalAll es
    return v :: vs

/-- Evaluates a comparison chain behind a value, up to the first comparison that fails. -/
def evalLinks (left : Value) : List Link → Eval Value
  | [] => return .bool true
  | .mk op operand :: links => do
    let right ← eval operand
    if ← Value.compareWith (← Eval.heap) op left right then evalLinks right links
    else return .bool false

end

end Expr

namespace Evaluate

/-- Reads a tree from tokens and evaluates it. -/
def tokens (ts : List Token) : Eval Value := do
  match Expr.parse ts with
  | .error fault => throw (.malformed (fault.message (← Eval.heap)))
  | .ok e => e.eval

/-- The lexemes of a text. -/
def lexemes (text : List Char) : Except Error (List Lexeme) :=
  match Lexeme.scan text with
  | .error fault => .error (.malformed fault.message)
  | .ok ls => .ok ls

/-- Evaluates a text without resolving names. -/
def unresolved (text : List Char) : Eval Value := do
  let ls ← lexemes text
  tokens (ls.map Lexeme.token)

/-- The value of a computation if it succeeds. What it did to the store stays in any case. -/
def success? (act : Eval α) : Eval (Option α) :=
  tryCatch (do return some (← act)) fun _ => return none

/-- Whether a text stands in square brackets, as far as its ends tell. -/
def looksBracketed (text : List Char) : Bool :=
  text.head? == some '[' && Text.endsWithChar ']' text

/-- Whether the bracket that was opened before these tokens, at the given depth, is closed by the
last of them and by none before. -/
def closesAtEnd : Nat → List Token → Bool
  | _, [] => false
  | depth, token :: rest =>
    if token.isSign .openBracket then closesAtEnd (depth + 1) rest
    else if token.isSign .closeBracket then
      if depth ≤ 1 then rest.isEmpty else closesAtEnd (depth - 1) rest
    else closesAtEnd depth rest

/-- The name and the text of the index, if the lexemes are a name with one index behind it. -/
def indexed? : List Lexeme → Option (String × List Char)
  | first :: opening :: rest =>
    match first.token, rest.getLast? with
    | .name n, some closing =>
      if opening.token.isSign .openBracket && closesAtEnd 1 (rest.map Lexeme.token) then
        some (n, rest.dropLast.flatMap Lexeme.chars ++ closing.blank)
      else none
    | _, _ => none
  | _ => none

/-- The value of a name. -/
def lookup (scope : Bindings) (name : String) : Except Error Value :=
  match scope.get? name with
  | some v => .ok v
  | none => .error (.undefined name)

/-- Replaces names by values, makes joined texts explicit, and evaluates. -/
def resolved (scope : Bindings) (records : List (String × Entries Value)) (ls : List Lexeme) :
    Eval Value := do
  let ts ← Phrase.replaceProperties records (ls.map Lexeme.token)
  let ts ← Phrase.replaceVariables scope ts
  tokens (Joining.explicit ts)

/-- The single name that the lexemes consist of, unless it belongs to a built-in function and is not
in scope. -/
def singleName? (scope : Bindings) : List Lexeme → Option String
  | [l] =>
    match l.token with
    | .name n => if scope.contains n || (Builtin.ofName? n).isNone then some n else none
    | _ => none
  | _ => none

/-- The value of a bracketed text that has one as it stands. -/
def asWritten? (text : List Char) : Eval (Option Value) :=
  if looksBracketed text then success? (unresolved text) else pure none

/-- Evaluates the lexemes of a text, given a way to evaluate the text of an index. -/
def lexedWith (scope : Bindings) (evaluateIndex : List Char → Eval Value) (text : List Char)
    (ls : List Lexeme) : Eval Value :=
  match singleName? scope ls with
  | some n => lookup scope n
  | none =>
    match indexed? ls with
    | some (n, inner) => do
      let target ← lookup scope n
      let place ← evaluateIndex inner
      Value.index (← Eval.heap) target place
    | none => do
      let records := Phrase.records (← Eval.heap) scope
      match Phrase.property? records text with
      | some v => return v
      | none => resolved scope records ls

/-- Evaluates the text of an expression, given a way to evaluate the text of an index. -/
def textWith (scope : Bindings) (evaluateIndex : List Char → Eval Value) (source : List Char) :
    Eval Value := do
  let text := Text.trim source
  match ← asWritten? text with
  | some v => return v
  | none => do
    let ls ← lexemes text
    lexedWith scope evaluateIndex text ls

/-- Evaluates the text of an expression. The text of an index is shorter than the whole, so the first
argument is never used up if it exceeds the length of the text. -/
def textFuel (scope : Bindings) : Nat → List Char → Eval Value
  | 0, _ => throw (.malformed "unexpected end of expression")
  | fuel + 1, source => textWith scope (textFuel scope fuel) source

/-- Evaluates the text of an expression with the names in scope. -/
def text (scope : Bindings) (source : String) : Eval Value :=
  textFuel scope (source.toList.length + 1) source.toList

end Evaluate

end Parlance
