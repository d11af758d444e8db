import Parlance.Machine.Basic
import Parlance.Statement.Condition
import Parlance.Text.Case

/-!
# Simple statements

What the statements without a block do. Each one evaluates everything that can fail before it
changes anything.
-/

namespace Parlance.Exec

/-- The name under which a call leaves what it gave back. -/
def lastResult : String :=
  "__last_result__"

/-- The name under which a handler finds the wording of a failure. -/
def errorName : String :=
  "error"

/-- Binds a name to the value of an expression. -/
def assign (name value : String) : Exec Unit := do
  let v ← evaluate value
  setVar name v

/-- Unbinds a name. -/
def forget (name : String) : Exec Unit :=
  modify fun m => { m with vars := m.vars.erase name }

/-- A value changed by an amount. -/
def changed (current amount : Value) : Direction → Exec Value
  | .increase => onStore fun _ => current.add amount
  | .decrease => onStore fun _ => current.subtract amount

/-- Changes a variable by an amount. A name that is not bound starts from the amount itself, or from
zero if it decreases. -/
def adjust (name amount : String) (direction : Direction) : Exec Unit := do
  let amount ← evaluate amount
  let updated ←
    match ← getVar? name, direction with
    | some current, direction => changed current amount direction
    | none, .increase => pure amount
    | none, .decrease => changed (.int 0) amount .decrease
  setVar name updated

/-- Evaluates the properties of an object that is introduced. The last of several values for one
property counts. -/
def properties (fields : Entries Value) : List (String × String) → Exec (Entries Value)
  | [] => return fields
  | (name, value) :: rest => do
    let v ← evaluate value
    properties (fields.put name v) rest

/-- Introduces a story object: a record that is known both as an object and as a variable. -/
def createObject (name : String) (texts : List (String × String)) : Exec Unit := do
  let fields ← properties [] texts
  let cell ← onStore fun _ => Eval.newRecordCell fields
  modify fun m => { m with objects := m.objects.put name cell }
  setVar name (.record cell)

/-- Changes a property of a story object by an amount; nothing happens if the object or the property
does not exist. -/
def changeObject (object property : String) (amount : Value) (direction : Direction) :
    Exec Unit := do
  match (← get).objects.get? object with
  | none => return
  | some cell =>
    match ((← heap).fields cell).get? property with
    | none => return
    | some current =>
      let updated ← changed current amount direction
      modifyHeap fun h => h.modifyFields cell (·.put property updated)
      setVar object (.record cell)

/-- Changes a property of a story object by the value of an expression. -/
def changeProperty (object amount property : String) (direction : Direction) : Exec Unit := do
  let amount ← evaluate amount
  changeObject object property amount direction

/-- Adds a property of one story object to a property of another. -/
def transferProperty (object source sourceProperty property : String) : Exec Unit := do
  match (← get).objects.get? source with
  | none => return
  | some cell =>
    match ((← heap).fields cell).get? sourceProperty with
    | none => return
    | some amount => changeObject object property amount .increase

/-- Keeps a function, in the place of an older one of that name. -/
def define (function : Function) : Exec Unit :=
  modify fun m => { m with functions := m.functions.set function.name function }

/-- Evaluates arguments from left to right. -/
def arguments : List String → Exec (List Value)
  | [] => return []
  | arg :: args => do
    let v ← evaluate arg
    let vs ← arguments args
    return v :: vs

/-- Adds an item to the end of a list. Another value becomes a list with the item behind it, and a
name that is not bound a list of the item. -/
def append (item list : String) : Exec Unit := do
  let item ← evaluate item
  match ← getVar? list with
  | some (.list cell) => modifyHeap fun h => h.modifyItems cell (· ++ [item])
  | some other => setVar list (← onStore fun _ => Eval.newList [other, item])
  | none => setVar list (← onStore fun _ => Eval.newList [item])

/-- Removes the first element equal to an item from a list. -/
def remove (item list : String) : Exec Unit := do
  let item ← evaluate item
  match ← getVar? list with
  | some (.list cell) =>
    let h ← heap
    match (h.items cell).findIdx? fun v => v.equal h item with
    | some place => modifyHeap fun h => h.modifyItems cell (·.eraseIdx place)
    | none => return
  | _ => return

/-- What an answer stands for: a text with a point a float, any other text an integer, if it spells
one, and otherwise the text itself. -/
def answerValue (answer : String) : Value :=
  let chars := answer.toList
  if chars.contains '.' then
    match Number.readFloat? (Text.trim chars) with
    | some f => .float f
    | none => .str answer
  else
    match Number.readInt? (Text.trim chars) with
    | some i => .int i
    | none => .str answer

/-- Asks for an answer. -/
def ask (prompt name : String) : Exec Unit := do
  let answer ← (fun m =>
    let console := m.console
    let m := { m with console := {} }
    match console.ask (prompt ++ " ") with
    | (.ok answer, console) => (.ok answer, { m with console })
    | (.error e, console) => (.error (.failed e), { m with console }) : Exec String)
  setVar name (answerValue answer)

/-- Shows a value. An undefined name is reported on the spot. -/
def display (value : String) (newline : Bool) : Exec Unit :=
  recover
    (do
      let text ← evaluateText value
      print (if newline then text ++ "\n" else text))
    fun e =>
      match e.errorClass with
      | .name => report ("Error: " ++ e.message)
      | _ => fail e

/-- Notes that a file is used. -/
def noteUsed (path : String) : Exec Unit :=
  modify fun m => { m with disk := m.files.noteUsed m.disk path }

/-- Writes the text of a value to a file. -/
def writeTo (content path : String) : Exec Unit := do
  let text ← evaluateText content
  let path ← evaluateText path
  noteUsed path
  let m ← get
  match m.files.write m.disk path text with
  | .ok (files, disk) => modify fun m => { m with files, disk }
  | .error e => fail e

/-- Reads a file into a variable. -/
def readInto (path name : String) : Exec Unit := do
  let path ← evaluateText path
  noteUsed path
  let m ← get
  match m.files.read m.disk path with
  | .ok text => setVar name (.str text)
  | .error e => fail e

/-- A text in one case. -/
def withCase (letters : LetterCase) (text : String) : String :=
  String.ofList
    (match letters with
    | .upper => Text.upperCase text.toList
    | .lower => Text.lowerCase text.toList)

/-- Binds a name to the text of a value in one case. -/
def changeCase (value name : String) (letters : LetterCase) : Exec Unit := do
  let text ← evaluateText value
  setVar name (.str (withCase letters text))

end Parlance.Exec
