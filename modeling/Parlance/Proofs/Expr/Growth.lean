import Parlance.Expr.Evaluate
import Parlance.Proofs.Value.Growth

/-!
# Evaluating only adds to the heap

No expression changes a list or a record that was there before, whatever it calls and wherever it
fails.
-/

namespace Parlance

open Eval

namespace Builtin

theorem grows_callRandom (args : List Value) : Grows (callRandom args) := by
  cases args with
  | nil => exact (Grows.draw _).bind fun _ => .pure _
  | cons _ _ => exact .throw _

theorem grows_callRandint (args : List Value) : Grows (callRandint args) := by
  unfold callRandint
  split
  · refine Grows.bind (.lift _) fun low => Grows.bind (.lift _) fun high => .failIf ?_
    exact (Grows.draw _).bind fun _ => .pure _
  · exact .throw _

theorem grows_sumFrom (start sequence : Value) : Grows (sumFrom start sequence) := by
  cases sequence with
  | list cell =>
      refine .failIf (Grows.heap.bind fun _ => ?_)
      exact .foldlM Value.grows_add _ _
  | _ => exact .throw _

theorem grows_callSum (args : List Value) : Grows (callSum args) := by
  unfold callSum
  split
  · exact grows_sumFrom _ _
  · exact grows_sumFrom _ _
  · exact .throw _

theorem grows_callList (args : List Value) : Grows (callList args) := by
  refine Grows.heap.bind fun heap => ?_
  split
  · exact .newList _
  · exact .newList _
  · exact .newList _
  · exact .newList _
  · exact .throw _
  · exact .throw _

theorem grows_call (b : Builtin) (args : List Value) : Grows (b.call args) := by
  cases b with
  | random => exact grows_callRandom args
  | randint => exact grows_callRandint args
  | sum => exact grows_callSum args
  | list => exact grows_callList args
  | min => exact Grows.heap.bind fun _ => .lift _
  | max => exact Grows.heap.bind fun _ => .lift _
  | len => exact Grows.heap.bind fun _ => .lift _
  | str => exact Grows.heap.bind fun _ => .lift _
  | _ => exact .lift _

end Builtin

namespace Expr

mutual

theorem grows_eval : ∀ e : Expr, Grows e.eval
  | .literal v => .pure v
  | .name n => .throw _
  | .list items => (grows_evalAll items).bind fun _ => .newList _
  | .unary op operand => (grows_eval operand).bind fun v => v.grows_unary op
  | .binary op left right =>
      (grows_eval left).bind fun l => (grows_eval right).bind fun r => l.grows_binary op r
  | .compare first links => (grows_eval first).bind fun v => grows_evalLinks v links
  | .and left right =>
      (grows_eval left).bind fun l => Grows.heap.bind fun _ => .ite (grows_eval right) (.pure l)
  | .or left right =>
      (grows_eval left).bind fun l => Grows.heap.bind fun _ => .ite (.pure l) (grows_eval right)
  | .index target place =>
      (grows_eval target).bind fun t => (grows_eval place).bind fun i =>
        Grows.heap.bind fun _ => .lift _
  | .call callee args => by
      have harguments := grows_evalAll args
      have hcallee := grows_eval callee
      rw [eval.eq_def]
      dsimp only
      split
      · split
        · exact harguments.bind fun values => Builtin.grows_call _ values
        · exact .throw _
      · exact hcallee.bind fun _ => .throw _

theorem grows_evalAll : ∀ es : List Expr, Grows (evalAll es)
  | [] => .pure []
  | e :: es => (grows_eval e).bind fun _ => (grows_evalAll es).bind fun _ => .pure _

theorem grows_evalLinks (left : Value) : ∀ links : List Link, Grows (evalLinks left links)
  | [] => .pure _
  | .mk _ operand :: links =>
      (grows_eval operand).bind fun right => Grows.heap.bind fun _ => Grows.bind (.lift _) fun _ =>
        .ite (grows_evalLinks right links) (.pure _)

end

end Expr

namespace Phrase

theorem grows_replaceFrom (pattern : List Token) {new : Eval Token} (hnew : Grows new) (skip : Nat)
    (tokens : List Token) : Grows (replaceFrom pattern new skip tokens) := by
  induction tokens generalizing skip with
  | nil => exact .pure []
  | cons token tokens ih =>
      cases skip with
      | succ skip => exact ih skip
      | zero =>
          refine .ite ?_ ((ih 0).bind fun _ => .pure _)
          exact hnew.bind fun _ => (ih _).bind fun _ => .pure _

theorem grows_replace (text : String) {new : Eval Token} (hnew : Grows new) (tokens : List Token) :
    Grows (replace text new tokens) := by
  unfold replace
  split
  · exact .pure tokens
  · exact grows_replaceFrom _ hnew 0 tokens

theorem grows_replaceProperties (records : List (String × Entries Value)) (tokens : List Token) :
    Grows (replaceProperties records tokens) := by
  refine .foldlM (fun tokens record => .foldlM (fun tokens property => ?_) _ tokens) records tokens
  exact grows_replace _ (property.2.grows_detached.bind fun _ => .pure _) tokens

theorem grows_variableToken (v : Value) : Grows (variableToken v) := by
  cases v with
  | record cell => exact Grows.heap.bind fun _ => .pure _
  | list cell => exact (Value.grows_detached _).bind fun _ => .pure _
  | _ => exact .pure _

theorem grows_replaceVariables (scope : Bindings) (tokens : List Token) :
    Grows (replaceVariables scope tokens) := by
  unfold replaceVariables
  refine .foldlM (fun tokens entry => ?_) _ tokens
  exact grows_replace entry.1 (grows_variableToken entry.2) tokens

end Phrase

namespace Evaluate

theorem grows_tokens (ts : List Token) : Grows (tokens ts) := by
  unfold tokens
  split
  · exact Grows.heap.bind fun _ => .throw _
  · exact Expr.grows_eval _

theorem grows_asWritten (text : List Char) : Grows (asWritten? text) := by
  refine .ite ?_ (.pure none)
  refine Grows.tryCatch ?_ fun _ => .pure none
  exact Grows.bind (Grows.bind (.lift _) fun _ => grows_tokens _) fun _ => .pure _

theorem grows_resolved (scope : Bindings) (records : List (String × Entries Value))
    (ls : List Lexeme) : Grows (resolved scope records ls) :=
  (Phrase.grows_replaceProperties records _).bind fun ts =>
    (Phrase.grows_replaceVariables scope ts).bind fun _ => grows_tokens _

theorem grows_lexedWith (scope : Bindings) {evaluateIndex : List Char → Eval Value}
    (hindex : ∀ inner, Grows (evaluateIndex inner)) (text : List Char) (ls : List Lexeme) :
    Grows (lexedWith scope evaluateIndex text ls) := by
  unfold lexedWith
  split
  · exact .lift _
  · split
    · refine Grows.bind (.lift _) fun target => (hindex _).bind fun place => ?_
      exact Grows.heap.bind fun _ => .lift _
    · refine Grows.heap.bind fun heap => ?_
      dsimp only
      split
      · exact .pure _
      · exact grows_resolved _ _ _

theorem grows_textFuel (scope : Bindings) (fuel : Nat) (source : List Char) :
    Grows (textFuel scope fuel source) := by
  induction fuel generalizing source with
  | zero => exact .throw _
  | succ fuel ih =>
      refine (grows_asWritten _).bind fun asWritten => ?_
      cases asWritten with
      | some v => exact .pure v
      | none => exact Grows.bind (.lift _) fun ls => grows_lexedWith scope ih _ ls

theorem grows_text (scope : Bindings) (source : String) : Grows (text scope source) :=
  grows_textFuel scope _ _

end Evaluate

end Parlance
