import Parlance.Expr.Token

/-!
# Texts side by side

`"Score: " score` means the text followed by the value of `score` as text. When no token compares or
combines truth values, an expression with a text outside all brackets is split at such texts; what
stands between them is turned into text, and everything is joined.
-/

namespace Parlance.Joining

/-- The depth of brackets behind a token; a closing one too many does not count. -/
def depthAfter (depth : Nat) : Token → Nat
  | .sign .openParen => depth + 1
  | .sign .openBracket => depth + 1
  | .sign .closeParen => depth - 1
  | .sign .closeBracket => depth - 1
  | _ => depth

/-- The texts outside brackets, each with the run of tokens in front of it, and the run behind the
last one. -/
structure Split where
  texts : List (List Token × Token)
  last : List Token

/-- Splits tokens at the texts outside brackets. -/
def split : Nat → List Token → Split
  | _, [] => ⟨[], []⟩
  | depth, token :: tokens =>
    let depth := depthAfter depth token
    let rest := split depth tokens
    if depth == 0 && token.isText then ⟨([], token) :: rest.texts, rest.last⟩
    else
      match rest.texts with
      | [] => ⟨[], token :: rest.last⟩
      | (run, text) :: texts => ⟨(token :: run, text) :: texts, rest.last⟩

/-- A run without one plus sign at its front. -/
def dropFrontPlus : List Token → List Token
  | .sign .plus :: run => run
  | run => run

/-- A run without one plus sign at either end. -/
def trimPlus (run : List Token) : List Token :=
  let run := dropFrontPlus run
  match run.getLast? with
  | some (.sign .plus) => run.dropLast
  | _ => run

/-- A run turned into text; nothing stays nothing. -/
def asText (run : List Token) : List (List Token) :=
  let run := trimPlus run
  if run.isEmpty then [] else [.name "str" :: .sign .openParen :: run ++ [.sign .closeParen]]

/-- Pieces joined by plus signs. -/
def joinPlus : List (List Token) → List Token
  | [] => []
  | [piece] => piece
  | piece :: pieces => piece ++ .sign .plus :: joinPlus pieces

/-- Makes the joining of texts side by side explicit. -/
def explicit (tokens : List Token) : List Token :=
  if tokens.any Token.isLogical then tokens
  else
    let parts := split 0 tokens
    if parts.texts.isEmpty then tokens
    else
      joinPlus ((parts.texts.flatMap fun (run, text) => asText run ++ [[text]]) ++ asText parts.last)

end Parlance.Joining
