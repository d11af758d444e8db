import Parlance.Machine.Basic

/-!
# Loops

Loops are combinators on the computation of their body. How often the body runs is bounded before
the loop starts: by a limit, by the elements to go through, or by a count.
-/

namespace Parlance.Exec

/-- What a loop does behind a round: go on, or end with a flow. A loop keeps `leave` and `next` to
itself. -/
def afterRound (goOn : Exec Flow) : Flow → Exec Flow
  | .normal => goOn
  | .next => goOn
  | .leave => return .normal
  | .giveBack v => return .giveBack v

/-- Runs a body as long as a test holds, but at most so many times. A failure of either is reported
and ends the loop. -/
def whileLoop (test : Exec Bool) (body : Exec Flow) : Nat → Exec Flow
  | 0 => return .normal
  | limit + 1 => do
    let flow ← recover (do if ← test then body else return .leave) fun e => do
      report ("Error in while loop: " ++ e.message)
      return .leave
    afterRound (whileLoop test body limit) flow

/-- Runs a body for every value, bound to a name. -/
def forEachLoop (name : String) (body : Exec Flow) : List Value → Exec Flow
  | [] => return .normal
  | item :: items => do
    setVar name item
    let flow ← body
    afterRound (forEachLoop name body items) flow

/-- Runs a body so many times. -/
def timesLoop (body : Exec Flow) : Nat → Exec Flow
  | 0 => return .normal
  | count + 1 => do
    let flow ← body
    afterRound (timesLoop body count) flow

/-- The values that a loop goes through: the elements of a list, the characters of a text, or the
value itself. -/
def elements (heap : Heap) : Value → List Value
  | .list cell => heap.items cell
  | .str s => Builtin.charValues s
  | other => [other]

/-- How often a value says to repeat. -/
def repetitions : Value → Except Error Int
  | .int i => .ok i.toInt
  | .bool b => .ok (if b then 1 else 0)
  | .float f =>
    match Binary64.truncate? f with
    | some i => .ok (Number.clampInt64 i).toInt
    | none => .error (.notWhole f)
  | .str s =>
    match Number.readInt? (Text.trim s.toList) with
    | some i => .ok i.toInt
    | none => .error (.notAnInteger s)
  | other => .error (.notACount other.kind)

end Parlance.Exec
