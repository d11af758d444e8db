import Parlance.Number.Written
import Parlance.Text.Quoted
import Parlance.Value.Basic

/-!
# How values are shown

A text shows as itself on its own and quoted inside a container. A container that is met again on
the way down to it shows as three dots between its brackets, so a value that contains itself has a
finite form.
-/

namespace Parlance.Value

/-- Shows a value. `path` holds the containers around it; each step down adds one that was not there,
so the first argument, which bounds the depth, is never used up if it exceeds the number of
containers. -/
def showFuel (heap : Heap) : Nat → List Ref → Bool → Value → String
  | _, _, _, .none => "None"
  | _, _, _, .bool b => if b then "True" else "False"
  | _, _, _, .int i => Number.writeInt i.toInt
  | _, _, _, .float f => Number.writeFloat f
  | _, _, quote, .str s => if quote then Text.quoted s else s
  | 0, _, _, .list _ => "[...]"
  | 0, _, _, .record _ => "\x7b...\x7d"
  | fuel + 1, path, _, .list cell =>
    if path.contains (.list cell) then "[...]"
    else
      let inside := (heap.items cell).map (showFuel heap fuel (.list cell :: path) true)
      "[" ++ ", ".intercalate inside ++ "]"
  | fuel + 1, path, _, .record cell =>
    if path.contains (.record cell) then "\x7b...\x7d"
    else
      let inside := (heap.fields cell).map fun field =>
        Text.quoted field.1 ++ ": " ++ showFuel heap fuel (.record cell :: path) true field.2
      "\x7b" ++ ", ".intercalate inside ++ "\x7d"

/-- The form of a value inside a container, with texts in quotes. -/
def repr (heap : Heap) (v : Value) : String :=
  showFuel heap (heap.cellCount + 1) [] true v

/-- The form of a value on its own, with a text as it is. -/
def display (heap : Heap) (v : Value) : String :=
  showFuel heap (heap.cellCount + 1) [] false v

end Parlance.Value
