import Parlance.Store

/-!
# Detached copies

A detached copy of a value shares no list or record with it. A container that reaches itself has no
finite copy.
-/

namespace Parlance.Value

/-- Copies a value with new containers all the way down. The containers are read from `heap`, the
heap as it was before any of them was copied. `path` holds the containers around the value; each
step down adds one that was not there, so the fuel is never used up if it exceeds the number of
containers. -/
def detachFuel (heap : Heap) : Nat → List Ref → Value → Eval Value
  | fuel + 1, path, .list cell => do
    if path.contains (.list cell) then throw .selfContaining
    let items := heap.items cell
    -- Scalars are their own copies, so a list of them need not be walked in the monad.
    if items.all isScalar then Eval.newList items
    else
      let copies ← items.mapM (detachFuel heap fuel (.list cell :: path))
      Eval.newList copies
  | fuel + 1, path, .record cell => do
    if path.contains (.record cell) then throw .selfContaining
    let copies ← (heap.fields cell).mapM fun field => do
      let copy ← detachFuel heap fuel (.record cell :: path) field.2
      return (field.1, copy)
    Eval.newRecord copies
  | 0, _, .list _ => throw .selfContaining
  | 0, _, .record _ => throw .selfContaining
  | _, _, scalar => return scalar

/-- A copy of a value that shares no container with it. -/
def detached (v : Value) : Eval Value := do
  let heap ← Eval.heap
  detachFuel heap (heap.cellCount + 1) [] v

end Parlance.Value
