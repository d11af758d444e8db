import Parlance.Value.Basic

/-!
# Equality of values

Numbers are equal across kinds when their values are, texts when their characters are, and
containers when their contents are. A pair of containers that is met again while it is being
compared counts as equal, so containers that reach themselves compare by what they unfold to.
-/

namespace Parlance.Value

/-- Equality of two values of which not both are lists and not both are records. -/
def scalarEqual : Value → Value → Bool
  | .none, .none => true
  | .str l, .str r => l == r
  | .int l, .int r => l == r
  | l, r =>
    match l.float?, r.float? with
    | some a, some b => a == b
    | _, _ => false

/-- Compares two values. `seen` holds the pairs of containers around them; each step down adds one
that was not there, so the first argument is never used up if it exceeds the number of pairs. -/
def equalFuel (heap : Heap) : Nat → List (Ref × Ref) → Value → Value → Bool
  | fuel + 1, seen, .list l, .list r =>
    l == r || seen.contains (.list l, .list r) ||
      (let left := heap.items l
       let right := heap.items r
       left.length == right.length &&
         (left.zip right).all fun pair =>
           equalFuel heap fuel ((.list l, .list r) :: seen) pair.1 pair.2)
  | fuel + 1, seen, .record l, .record r =>
    l == r || seen.contains (.record l, .record r) ||
      (let left := heap.fields l
       let right := heap.fields r
       left.length == right.length &&
         left.all fun field =>
           match right.get? field.1 with
           | some other => equalFuel heap fuel ((.record l, .record r) :: seen) field.2 other
           | Option.none => false)
  | 0, _, .list _, .list _ => false
  | 0, _, .record _, .record _ => false
  | _, _, l, r => scalarEqual l r

/-- Whether two values are equal. -/
def equal (heap : Heap) (l r : Value) : Bool :=
  equalFuel heap (heap.cellCount * heap.cellCount + 1) [] l r

end Parlance.Value
