/-!
# Statements

A program is a block of statements, and a compound statement holds blocks of its own. Expressions
stay texts; they are evaluated when their statement runs.
-/

namespace Parlance

/-- Which way a number is changed. -/
inductive Direction where
  | increase
  | decrease
  deriving DecidableEq, Repr

/-- Which case letters are changed to. -/
inductive LetterCase where
  | upper
  | lower
  deriving DecidableEq, Repr

mutual

/-- A statement and the number of the line that it starts on. -/
inductive Statement where
  | mk (line : Nat) (action : Action)

/-- What a statement does. -/
inductive Action where
  | assign (name value : String)
  | forget (name : String)
  | adjust (name amount : String) (direction : Direction)
  | createObject (name : String) (properties : List (String × String))
  | changeProperty (object amount property : String) (direction : Direction)
  /-- Adds a property of one object to a property of another. -/
  | transferProperty (object source sourceProperty property : String)
  | question (condition : String) (yes no : List Statement)
  /-- Runs the first branch whose condition holds. -/
  | choose (branches : List Branch)
  | define (name : String) (params : List String) (body : List Statement)
  | call (name : String) (args : List String)
  | giveBack (value : String)
  | attempt (body : List Statement) (handler : Option (List Statement))
  | loopWhile (condition : String) (body : List Statement)
  | forEach (item iterable : String) (body : List Statement)
  | loopTimes (count : String) (body : List Statement)
  | append (item list : String)
  | remove (item list : String)
  | ask (prompt name : String)
  | display (value : String) (newline : Bool)
  | writeTo (content path : String)
  | readInto (path name : String)
  | changeCase (value name : String) (letters : LetterCase)
  /-- Leaves the innermost loop. -/
  | leave
  /-- Goes on with the next round of the innermost loop. -/
  | next
  /-- A line that is no statement. -/
  | unknown (text : String)

/-- A branch of a choice; without a condition it runs in any case. -/
inductive Branch where
  | mk (condition : Option String) (body : List Statement)

end

/-- Statements that run one after another. -/
abbrev Block := List Statement

/-- What a statement does. -/
def Statement.action : Statement → Action
  | .mk _ action => action

/-- The number of the line that a statement starts on. -/
def Statement.line : Statement → Nat
  | .mk line _ => line

/-- A short label for the form of a statement. -/
def Action.label : Action → String
  | .assign .. => "assign"
  | .forget .. => "forget"
  | .adjust .. => "adjust"
  | .createObject .. => "create-object"
  | .changeProperty .. => "change-property"
  | .transferProperty .. => "transfer-property"
  | .question .. => "question"
  | .choose .. => "when"
  | .define .. => "define"
  | .call .. => "call"
  | .giveBack .. => "give-back"
  | .attempt .. => "attempt"
  | .loopWhile .. => "while"
  | .forEach .. => "for-each"
  | .loopTimes .. => "repeat"
  | .append .. => "append"
  | .remove .. => "remove"
  | .ask .. => "ask"
  | .display .. => "display"
  | .writeTo .. => "write"
  | .readInto .. => "read"
  | .changeCase .. => "change-case"
  | .leave => "break"
  | .next => "continue"
  | .unknown .. => "unknown"

end Parlance
