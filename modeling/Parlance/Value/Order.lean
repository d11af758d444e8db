import Parlance.Text.Blank
import Parlance.Text.Cut
import Parlance.Value.Equality
import Parlance.Value.Show
import Parlance.Store

/-!
# Ordering, membership and indexing

Numbers are ordered by value, texts by their characters, lists by their first unequal elements and
then by length; other pairs have no order. Indexing counts from the front, or from the end for a
negative position, and a record answers to a missing key with nothing.
-/

namespace Parlance

/-- The comparison operators. -/
inductive CompareOp where
  | equal
  | notEqual
  | lessThan
  | lessEqual
  | greaterThan
  | greaterEqual
  | within
  | notWithin
  deriving DecidableEq, Repr

namespace Value

/-- The order of two doubles; a NaN has none. -/
def orderFloats (l r : Float) : Option Ordering :=
  if l < r then some .lt else if l > r then some .gt else if l == r then some .eq else Option.none

/-- The order of two values that are not both texts and not both lists. -/
def orderNumbers (symbol : String) (left right : Value) : Except Error (Option Ordering) :=
  match left.num?, right.num? with
  | some (.int l), some (.int r) => .ok (some (compare l.toInt r.toInt))
  | some l, some r => .ok (orderFloats l.toFloat r.toFloat)
  | _, _ => .error (.notOrdered symbol left.kind right.kind)

/-- Orders two values. `seen` holds the pairs of lists around them; meeting one of them again is an
error. Each step down adds a pair that was not there, so the first argument is never used up if it
exceeds the number of pairs. -/
def orderFuel (heap : Heap) (symbol : String) :
    Nat → List (Nat × Nat) → Value → Value → Except Error (Option Ordering)
  | _, _, .str l, .str r => .ok (some (compare l r))
  | 0, _, .list _, .list _ => .error .endlessComparison
  | fuel + 1, seen, .list l, .list r =>
    if seen.contains (l, r) then .error .endlessComparison
    else
      let left := heap.items l
      let right := heap.items r
      match (left.zip right).find? fun pair => !equal heap pair.1 pair.2 with
      | some pair => orderFuel heap symbol fuel ((l, r) :: seen) pair.1 pair.2
      | Option.none => .ok (some (compare left.length right.length))
  | _, _, left, right => orderNumbers symbol left right

/-- The order of two values, or nothing if one of them is a NaN. -/
def order (heap : Heap) (symbol : String) (left right : Value) : Except Error (Option Ordering) :=
  orderFuel heap symbol (heap.lists.size * heap.lists.size + 1) [] left right

/-- Whether a container holds an item: a text a part, a list an element, a record a key. -/
def holds (heap : Heap) (container item : Value) : Except Error Bool :=
  match container with
  | .str text =>
    match item with
    | .str part => .ok (Text.splitFirst? part.toList text.toList).isSome
    | other => .error (.notInText other.kind)
  | .list cell => .ok ((heap.items cell).any fun candidate => equal heap candidate item)
  | .record cell =>
    match item with
    | .str key => .ok ((heap.fields cell).get? key).isSome
    | _ => .ok false
  | other => .error (.notSearchable other.kind)

/-- Whether an order satisfies a test; a missing order satisfies none. -/
def ordered (heap : Heap) (symbol : String) (accept : Ordering → Bool) (left right : Value) :
    Except Error Bool :=
  (order heap symbol left right).map fun o => o.any accept

/-- Applies a comparison operator. -/
def compareWith (heap : Heap) (op : CompareOp) (left right : Value) : Except Error Bool :=
  match op with
  | .equal => .ok (equal heap left right)
  | .notEqual => .ok (!equal heap left right)
  | .lessThan => ordered heap "<" Ordering.isLT left right
  | .lessEqual => ordered heap "<=" Ordering.isLE left right
  | .greaterThan => ordered heap ">" Ordering.isGT left right
  | .greaterEqual => ordered heap ">=" Ordering.isGE left right
  | .within => holds heap right left
  | .notWithin => (holds heap right left).map (!·)

/-- The integer that an index stands for; a text counts if it spells one. -/
def indexInt? : Value → Option Int64
  | .str s => Number.readInt? (Text.trim s.toList)
  | v => v.integral?

/-- The place of an index among `length` elements, from the front for a natural number and from the
end for a negative one. -/
def position (heap : Heap) (index : Value) (length : Nat) : Except Error Nat :=
  let place : Option Int :=
    index.indexInt?.map fun i => if i.toInt < 0 then i.toInt + length else i.toInt
  match place with
  | some i => if 0 ≤ i && i < length then .ok i.toNat else .error (.badIndex (index.display heap))
  | Option.none => .error (.badIndex (index.display heap))

/-- The element of a value at an index. -/
def index (heap : Heap) (target index : Value) : Except Error Value :=
  match target with
  | .list cell => do
    let items := heap.items cell
    let place ← position heap index items.length
    return items.getD place .none
  | .str text => do
    let chars := text.toList
    let place ← position heap index chars.length
    return .str (String.ofList (chars[place]?.toList))
  | .record cell =>
    match index with
    | .str key => .ok (((heap.fields cell).get? key).getD .none)
    | _ => .ok .none
  | other => .error (.notSubscriptable other.kind)

end Value

end Parlance
