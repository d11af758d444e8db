import Parlance.Expr.Lexeme
import Parlance.NameMap
import Parlance.Value.Detach
import Parlance.Value.Show

/-!
# Resolving names

A name may consist of several words, and a property is named by its record and its own name. Both
are found in an expression as phrases, that is, runs of tokens, and replaced by a single token with
the value. Phrases are tried in the order of their names, longest first; string literals are single
tokens and never change.
-/

namespace Parlance

/-- The values of the names in scope. -/
abbrev Bindings := NameMap Value

/-- Whether two tokens without a word are written alike. -/
def Token.sameSign : Token → Token → Bool
  | .int a, .int b => a == b
  | .float a, .float b => a == b
  | .str a, .str b => a == b
  | .sign a, .sign b => a == b
  | _, _ => false

/-- Whether a token can stand where a phrase wants another. Words match words, reserved or not. -/
def Token.fits (candidate wanted : Token) : Bool :=
  match candidate.word?, wanted.word? with
  | some a, some b => a == b
  | none, none => candidate.sameSign wanted
  | _, _ => false

namespace Phrase

/-- The tokens of a phrase. A text without tokens, with a string literal, or that cannot be cut into
tokens is not a phrase. -/
def ofText? (text : String) : Option (List Token) :=
  match Token.scan text.toList with
  | .error _ => none
  | .ok tokens => if tokens.isEmpty || tokens.any Token.isText then none else some tokens

/-- Whether tokens start with a phrase. -/
def startsWith : List Token → List Token → Bool
  | [], _ => true
  | _ :: _, [] => false
  | wanted :: pattern, candidate :: tokens => candidate.fits wanted && startsWith pattern tokens

/-- Replaces the occurrences of a phrase, going on behind each one; `skip` counts the tokens of an
occurrence that are still to be passed over. -/
def replaceFrom (pattern : List Token) (new : Eval Token) : Nat → List Token → Eval (List Token)
  | _, [] => return []
  | skip + 1, _ :: tokens => replaceFrom pattern new skip tokens
  | 0, token :: tokens => do
    if startsWith pattern (token :: tokens) then
      let token ← new
      let rest ← replaceFrom pattern new (pattern.length - 1) tokens
      return token :: rest
    else
      let rest ← replaceFrom pattern new 0 tokens
      return token :: rest

/-- Replaces every occurrence of a phrase by a token, made anew for each. -/
def replace (text : String) (new : Eval Token) (tokens : List Token) : Eval (List Token) :=
  match ofText? text with
  | none => return tokens
  | some pattern => replaceFrom pattern new 0 tokens

/-- The names of records in scope with their properties, longest names first. -/
def records (heap : Heap) (scope : Bindings) : List (String × Entries Value) :=
  scope.entries.filterMap fun (name, value) =>
    match value with
    | .record cell => some (name, heap.fields cell)
    | _ => none

/-- Replaces every property phrase of some records by a copy of the property's value. -/
def replaceProperties (records : List (String × Entries Value)) (tokens : List Token) :
    Eval (List Token) :=
  records.foldlM
    (fun tokens record =>
      record.2.foldlM
        (fun tokens property =>
          replace (record.1 ++ " " ++ property.1) (do return .value (← property.2.detached)) tokens)
        tokens)
    tokens

/-- The token that a variable is replaced by: a record as its text, a list as a copy. -/
def variableToken (v : Value) : Eval Token := do
  match v with
  | .record _ => return .value (.str (v.display (← Eval.heap)))
  | .list _ => return .value (← v.detached)
  | scalar => return .value scalar

/-- Replaces every name in scope by its value. -/
def replaceVariables (scope : Bindings) (tokens : List Token) : Eval (List Token) :=
  scope.entries.foldlM
    (fun tokens entry => replace entry.1 (variableToken entry.2) tokens)
    tokens

/-- The value of a text that is, as a whole, a record's name and one of its properties, with blanks
between them. -/
def property? (records : List (String × Entries Value)) (text : List Char) : Option Value :=
  records.findSome? fun (name, properties) =>
    match Text.after? name.toList text with
    | none => none
    | some [] => none
    | some (c :: rest) =>
      if Text.isBlank c then properties.get? (String.ofList (Text.trimStart (c :: rest))) else none

end Phrase

end Parlance
