/-!
# Settings of a run
-/

namespace Parlance

/-- The limits and choices of a run. -/
structure Settings where
  /-- How often the body of one `while` loop may run. -/
  maxLoopIterations : Nat := 10000
  /-- How deep calls of functions may nest. -/
  maxCallDepth : Nat := 200
  /-- How long to wait for an answer, in milliseconds. -/
  inputTimeoutMs : Option Nat := none
  /-- Where the random numbers start. -/
  randomSeed : Option Nat := none
  debug : Bool := false
  deriving DecidableEq, Repr, Inhabited

end Parlance
