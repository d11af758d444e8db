import Parlance.Error
import Parlance.Random

/-!
# Computations on the heap

Evaluating an expression may make lists and records, draw random numbers and fail. A failure keeps
what was made before it.
-/

namespace Parlance

/-- What evaluating an expression can change. -/
structure Store where
  heap : Heap := {}
  random : Random := default
  deriving Inhabited

/-- A computation that works on the store and may fail. -/
abbrev Eval := ExceptT Error (StateM Store)

namespace Eval

/-- The current heap. -/
def heap : Eval Heap :=
  return (← get).heap

/-- Makes a list. -/
def newList (items : List Value) : Eval Value :=
  modifyGet fun store =>
    let (cell, heap) := store.heap.newList items
    (.list cell, { store with heap })

/-- Makes a record and gives its place on the heap. -/
def newRecordCell (fields : Entries Value) : Eval Nat :=
  modifyGet fun store =>
    let (cell, heap) := store.heap.newRecord fields
    (cell, { store with heap })

/-- Makes a record. -/
def newRecord (fields : Entries Value) : Eval Value := do
  return .record (← newRecordCell fields)

/-- Draws from the random source. -/
def draw (f : Random → α × Random) : Eval α :=
  modifyGet fun store =>
    let (value, random) := f store.random
    (value, { store with random })

end Eval

end Parlance
