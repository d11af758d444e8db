/-!
# Random numbers

Which numbers are drawn is left open: a program is given a generator, which comes to a state from a
seed and gives every draw together with the state behind it. States are numbers.
-/

namespace Parlance

namespace Random

/-- A way to draw numbers. -/
structure Generator where
  /-- The state that a seed leads to. -/
  start : Nat → Nat
  /-- Draws a double from zero up to, but not including, one. -/
  unit : Nat → Float × Nat
  /-- Draws an integer between two bounds, both of which can occur. -/
  between (low high : Int64) : Nat → Int64 × Nat
  between_mem {low high : Int64} (h : low.toInt ≤ high.toInt) (state : Nat) :
    low.toInt ≤ (between low high state).1.toInt ∧ (between low high state).1.toInt ≤ high.toInt

/-- Always draws the least number. -/
instance : Inhabited Generator :=
  ⟨{ start := id, unit := (0, ·), between := fun low _ state => (low, state)
     between_mem := fun h _ => ⟨Int.le_refl _, h⟩ }⟩

end Random

/-- A source of random numbers. -/
structure Random where
  generator : Random.Generator
  state : Nat
  deriving Inhabited

namespace Random

/-- The source that starts from a seed. -/
def ofSeed (generator : Generator) (seed : Nat) : Random :=
  ⟨generator, generator.start seed⟩

/-- Draws a double from zero up to, but not including, one. -/
def unit (r : Random) : Float × Random :=
  let (f, state) := r.generator.unit r.state
  (f, { r with state })

/-- Draws an integer between two bounds, both of which can occur. -/
def between (low high : Int64) (r : Random) : Int64 × Random :=
  let (i, state) := r.generator.between low high r.state
  (i, { r with state })

end Random

end Parlance
