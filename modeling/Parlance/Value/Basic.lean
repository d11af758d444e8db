import Parlance.Entries
import Parlance.Number.Read

/-!
# Values and the heap

Values are scalars, or references to a list or a record on the heap. Copying a value copies the
reference, so two names can stand for one list, and a list can come to contain itself. Lists and
records live in separate tables, so that a reference to a list always leads to a list.
-/

namespace Parlance

/-- The kinds of values. -/
inductive Kind where
  | none
  | boolean
  | integer
  | float
  | string
  | list
  | record
  deriving DecidableEq, Repr, Inhabited

/-- The name of a kind in messages. -/
def Kind.name : Kind → String
  | .none => "none"
  | .boolean => "boolean"
  | .integer => "integer"
  | .float => "float"
  | .string => "string"
  | .list => "list"
  | .record => "record"

/-- A value of the language. The number of a list or record is its place in the heap. -/
inductive Value where
  | none
  | bool (b : Bool)
  | int (i : Int64)
  | float (f : Float)
  | str (s : String)
  | list (cell : Nat)
  | record (cell : Nat)
  deriving Inhabited

/-- A reference to a container on the heap. -/
inductive Ref where
  | list (cell : Nat)
  | record (cell : Nat)
  deriving DecidableEq, Repr

/-- The contents of all lists and records that a run has made. -/
structure Heap where
  lists : Array (List Value) := #[]
  records : Array (Entries Value) := #[]
  deriving Inhabited

namespace Heap

/-- The elements of a list. -/
def items (heap : Heap) (cell : Nat) : List Value :=
  heap.lists.getD cell []

/-- The properties of a record. -/
def fields (heap : Heap) (cell : Nat) : Entries Value :=
  heap.records.getD cell []

/-- How many lists and records there are. -/
def cellCount (heap : Heap) : Nat :=
  heap.lists.size + heap.records.size

/-- Makes a list with the given elements and gives its place. -/
def newList (heap : Heap) (items : List Value) : Nat × Heap :=
  (heap.lists.size, { heap with lists := heap.lists.push items })

/-- Makes a record with the given properties and gives its place. -/
def newRecord (heap : Heap) (fields : Entries Value) : Nat × Heap :=
  (heap.records.size, { heap with records := heap.records.push fields })

/-- Changes the elements of a list in place. -/
def modifyItems (heap : Heap) (cell : Nat) (change : List Value → List Value) : Heap :=
  { heap with lists := heap.lists.modify cell change }

/-- Changes the properties of a record in place. -/
def modifyFields (heap : Heap) (cell : Nat) (change : Entries Value → Entries Value) : Heap :=
  { heap with records := heap.records.modify cell change }

end Heap

/-- A value seen as a number. -/
inductive Num where
  | int (i : Int64)
  | float (f : Float)

/-- The double nearest to a number. -/
def Num.toFloat : Num → Float
  | .int i => Binary64.ofInt i.toInt
  | .float f => f

namespace Value

/-- The kind of a value. -/
def kind : Value → Kind
  | .none => .none
  | .bool _ => .boolean
  | .int _ => .integer
  | .float _ => .float
  | .str _ => .string
  | .list _ => .list
  | .record _ => .record

/-- Whether a value refers to nothing on the heap. -/
def isScalar : Value → Bool
  | .list _ => false
  | .record _ => false
  | _ => true

/-- Whether a value is an integer or a float. -/
def isNumber (v : Value) : Bool :=
  v.kind == .integer || v.kind == .float

/-- The number behind a value; truth values count as one and zero. -/
def num? : Value → Option Num
  | .int i => some (.int i)
  | .bool b => some (.int (if b then 1 else 0))
  | .float f => some (.float f)
  | _ => Option.none

/-- The double behind a value. -/
def float? (v : Value) : Option Float :=
  v.num?.map Num.toFloat

/-- The integer behind a value; a whole float counts, moved into the 64-bit range if needed. -/
def integral? : Value → Option Int64
  | .int i => some i
  | .bool b => some (if b then 1 else 0)
  | .float f =>
    if Binary64.isWhole f then (Binary64.truncate? f).map Number.clampInt64 else Option.none
  | _ => Option.none

/-- Whether a value counts as true: it is neither nothing, nor false, nor zero, nor empty. -/
def isTruthy (heap : Heap) : Value → Bool
  | .none => false
  | .bool b => b
  | .int i => i != 0
  | .float f => f != 0.0
  | .str s => !s.isEmpty
  | .list cell => !(heap.items cell).isEmpty
  | .record cell => !(heap.fields cell).isEmpty

end Value

end Parlance
