import Parlance.Value.Show

/-!
# Tokens of expressions

An expression is made of literals, names, reserved words and signs. Resolving names puts values in
the place of words, so a value can be a token too.
-/

namespace Parlance

/-- The reserved words. -/
inductive Keyword where
  | yes
  | no
  | nothing
  | and
  | or
  | not
  | within
  deriving DecidableEq, Repr

/-- How a reserved word is spelled. -/
def Keyword.spelling : Keyword → String
  | .yes => "True"
  | .no => "False"
  | .nothing => "None"
  | .and => "and"
  | .or => "or"
  | .not => "not"
  | .within => "in"

/-- The reserved word with a given spelling; the two truth values may be written small. -/
def Keyword.ofSpelling? : String → Option Keyword
  | "and" => some .and
  | "or" => some .or
  | "not" => some .not
  | "in" => some .within
  | "True" => some .yes
  | "true" => some .yes
  | "False" => some .no
  | "false" => some .no
  | "None" => some .nothing
  | _ => none

/-- The signs. -/
inductive Sign where
  | plus
  | minus
  | star
  | starStar
  | slash
  | slashSlash
  | percent
  | equal
  | notEqual
  | less
  | lessEqual
  | greater
  | greaterEqual
  | openParen
  | closeParen
  | openBracket
  | closeBracket
  | comma
  deriving DecidableEq, Repr

/-- How a sign is written. -/
def Sign.spelling : Sign → String
  | .plus => "+"
  | .minus => "-"
  | .star => "*"
  | .starStar => "**"
  | .slash => "/"
  | .slashSlash => "//"
  | .percent => "%"
  | .equal => "=="
  | .notEqual => "!="
  | .less => "<"
  | .lessEqual => "<="
  | .greater => ">"
  | .greaterEqual => ">="
  | .openParen => "("
  | .closeParen => ")"
  | .openBracket => "["
  | .closeBracket => "]"
  | .comma => ","

/-- A token of an expression. -/
inductive Token where
  | int (i : Int64)
  | float (f : Float)
  | str (s : String)
  | name (n : String)
  /-- A value put in by resolving a name. -/
  | value (v : Value)
  | keyword (k : Keyword)
  | sign (s : Sign)
  deriving Inhabited

namespace Token

/-- The word that a token was spelled with, if it is one. -/
def word? : Token → Option String
  | .name n => some n
  | .keyword k => some k.spelling
  | _ => none

/-- Whether a token stands for a text, written or put in. -/
def isText : Token → Bool
  | .str _ => true
  | .value (.str _) => true
  | _ => false

/-- Whether a token compares or combines truth values. -/
def isLogical : Token → Bool
  | .keyword k => k == .and || k == .or || k == .not || k == .within
  | .sign s =>
    s == .equal || s == .notEqual || s == .less || s == .lessEqual || s == .greater ||
      s == .greaterEqual
  | _ => false

/-- Whether a token is a given sign. -/
def isSign (sign : Sign) : Token → Bool
  | .sign s => s == sign
  | _ => false

/-- How a token is named in a message. -/
def describe (heap : Heap) : Token → String
  | .int i => "number " ++ Number.writeInt i.toInt
  | .float f => "number " ++ Number.writePlain f
  | .str s => s!"string '{s}'"
  | .name n => s!"name '{n}'"
  | .value v => "value " ++ v.repr heap
  | .keyword k => s!"'{k.spelling}'"
  | .sign s => s!"'{s.spelling}'"

end Token

end Parlance
