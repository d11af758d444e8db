import Parlance.Number.Binary64

/-!
# The fewest digits that read back

Every positive finite double is written with as few decimal digits as identify it. The reals that
round to the double form an interval; for 1, 2, … 17 digits the two neighbours of the value on that
decimal grid are tested against it, in whole numbers. The first grid with a hit wins, of two hits
the nearer one, and of two equally near ones the upper.
-/

namespace Parlance.Shortest

/-- The decimal number `digits · 10 ^ exponent`. -/
structure Decimal where
  digits : Nat
  exponent : Int
  deriving DecidableEq, Repr

/-- How many decimal digits a natural number has; zero has one. -/
def digitCount (n : Nat) : Nat :=
  (Nat.toDigits 10 n).length

/-- The number `k` with `10 ^ (k - 1) ≤ num / den < 10 ^ k`. -/
def magnitude (num den : Nat) : Int :=
  if den ≤ num then digitCount (num / den) else 1 - (digitCount ((den - 1) / num) : Int)

/-- A value `mid / den` with the ends `low / den` and `high / den` of the interval of reals that
round to it; `closed` tells whether the ends belong to the interval. -/
structure Interval where
  low : Nat
  mid : Nat
  high : Nat
  den : Nat
  closed : Bool

/-- The interval of `mantissa · 2 ^ exponent`. Its ends lie half way to the neighbours, and the
lower neighbour of a power of two is nearer than the upper one. -/
def Interval.of (mantissa : Nat) (exponent : Int) : Interval :=
  let lowGap := if mantissa == Binary64.pow2 52 && exponent > -1074 then 1 else 2
  let unit := exponent - 2
  let up := Binary64.pow2 unit.toNat
  { low := (4 * mantissa - lowGap) * up
    mid := 4 * mantissa * up
    high := (4 * mantissa + 2) * up
    den := Binary64.pow2 (-unit).toNat
    closed := mantissa % 2 == 0 }

/-- The interval measured in units of `10 ^ exponent`. -/
def Interval.inUnits (i : Interval) (exponent : Int) : Interval :=
  let up := Nat.pow 10 (-exponent).toNat
  { low := i.low * up, mid := i.mid * up, high := i.high * up
    den := i.den * Nat.pow 10 exponent.toNat
    closed := i.closed }

/-- Whether a whole number of units lies in the interval. -/
def Interval.holds (i : Interval) (n : Nat) : Bool :=
  if i.closed then i.low ≤ n * i.den && n * i.den ≤ i.high
  else i.low < n * i.den && n * i.den < i.high

/-- The neighbour of the value on the grid of units that lies in the interval, if one does. -/
def Interval.pick? (i : Interval) : Option Nat :=
  let below := i.mid / i.den
  let remainder := i.mid % i.den
  let down := i.holds below
  let up := i.holds (below + 1)
  if up && (!down || i.den ≤ 2 * remainder) then some (below + 1)
  else if down then some below
  else none

/-- Moves factors of ten from the digits to the exponent. The first argument bounds their
number. -/
def stripZeros : Nat → Decimal → Decimal
  | 0, d => d
  | fuel + 1, d =>
    if d.digits != 0 && d.digits % 10 == 0 then stripZeros fuel ⟨d.digits / 10, d.exponent + 1⟩
    else d

/-- The shortest decimal that reads back as `mantissa · 2 ^ exponent`, for a mantissa that is not
zero. Seventeen digits always suffice. -/
def decimal (mantissa : Nat) (exponent : Int) : Decimal :=
  let interval := Interval.of mantissa exponent
  let size := magnitude interval.mid interval.den
  let grid (count : Nat) : Option Decimal :=
    let unit := size - count
    (interval.inUnits unit).pick?.map fun n => ⟨n, unit⟩
  let found := (List.range 17).findSome? fun i => grid (i + 1)
  stripZeros 18 (found.getD ⟨0, 0⟩)

end Parlance.Shortest
