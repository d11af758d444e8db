import Parlance.Expr.Evaluate
import Parlance.Host.Console
import Parlance.Host.Files
import Parlance.Settings.Basic
import Parlance.Statement.Basic

/-!
# The state of a run

A machine holds everything that statements read and change. Statements are computations on it that
end in a flow, telling how to go on, or come to a halt. Running out of fuel is a halt of its own
kind, which no statement can absorb.
-/

namespace Parlance

/-- A function that a program has defined. -/
structure Function where
  name : String
  params : List String
  body : Block

/-- What a program works on. -/
structure Machine where
  settings : Settings := {}
  /-- The names in scope. -/
  vars : Bindings := {}
  functions : NameMap Function := {}
  /-- The story objects and their records, in the order in which they were introduced. -/
  objects : Entries Nat := []
  store : Store := {}
  console : Console := {}
  files : Files := .memory {}
  disk : Disk := {}
  /-- How many calls are being run. -/
  depth : Nat := 0

/-- How to go on behind a statement. -/
inductive Flow where
  | normal
  /-- Leave the innermost loop. -/
  | leave
  /-- Go on with the next round of the innermost loop. -/
  | next
  /-- End the function with a value. -/
  | giveBack (value : Value)

/-- Why a computation came to a halt. -/
inductive Halt where
  | failed (error : Error)
  | exhausted

/-- A computation on a machine. -/
abbrev Exec := ExceptT Halt (StateM Machine)

namespace Exec

/-- Fails. -/
def fail (e : Error) : Exec α :=
  throw (.failed e)

/-- Goes on from a failure, in the state in which it happened. -/
def recover (act : Exec α) (handle : Error → Exec α) : Exec α := fun m =>
  match act m with
  | (.error (.failed e), m) => handle e m
  | outcome => outcome

/-- Runs a computation that may change the store only. -/
def onStore (act : Bindings → Eval α) : Exec α := fun m =>
  let store := m.store
  -- The store is taken out of the machine, so that it is not shared while it changes.
  let m := { m with store := {} }
  match act m.vars store with
  | (.ok a, store) => (.ok a, { m with store })
  | (.error e, store) => (.error (.failed e), { m with store })

/-- Evaluates the text of an expression with the names in scope. -/
def evaluate (text : String) : Exec Value :=
  onStore fun vars => Evaluate.text vars text

/-- The current heap. -/
def heap : Exec Heap :=
  return (← get).store.heap

/-- Changes the heap. -/
def modifyHeap (change : Heap → Heap) : Exec Unit :=
  modify fun m => { m with store := { m.store with heap := change m.store.heap } }

/-- Whether the value of a condition in words holds. -/
def holds (expression : String) : Exec Bool := do
  let v ← evaluate expression
  return v.isTruthy (← heap)

/-- Evaluates an expression and gives the form in which its value is shown. -/
def evaluateText (text : String) : Exec String := do
  let v ← evaluate text
  return v.display (← heap)

/-- Binds a name. -/
def setVar (name : String) (value : Value) : Exec Unit :=
  modify fun m => { m with vars := m.vars.set name value }

/-- The value of a name in scope. -/
def getVar? (name : String) : Exec (Option Value) :=
  return (← get).vars.get? name

/-- Prints a text as it is. -/
def print (text : String) : Exec Unit :=
  modify fun m => { m with console := m.console.print text }

/-- Prints a line. -/
def report (message : String) : Exec Unit :=
  print (message ++ "\n")

end Exec

end Parlance
