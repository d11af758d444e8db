/-!
# Division of 64-bit integers that rounds down

Machine division goes toward zero. Where that is up, the quotient is one too great, and a remainder
that is not zero has the sign of the dividend; each is then moved by one step of 64-bit arithmetic.
-/

namespace Parlance.Number

/-- Whether there is a truncated quotient of 64 bits. -/
def divides (a b : Int64) : Bool :=
  b != 0 && !(a == Int64.minValue && b == -1)

/-- Whether truncating the quotient rounded it up. -/
def roundsUp (a b : Int64) : Bool :=
  a % b != 0 && (decide (a < 0) != decide (b < 0))

/-- Whether a remainder lies on the other side of zero than the divisor. -/
def strays (r b : Int64) : Bool :=
  r != 0 && (decide (r < 0) != decide (b < 0))

/-- The quotient rounded down, unless the truncated one does not fit into 64 bits. -/
def floorQuotient? (a b : Int64) : Option Int64 :=
  if divides a b then some (if roundsUp a b then a / b - 1 else a / b) else none

/-- The remainder with the sign of the divisor, unless the truncated quotient does not fit into 64
bits. -/
def floorRemainder? (a b : Int64) : Option Int64 :=
  if divides a b then some (if strays (a % b) b then a % b + b else a % b) else none

end Parlance.Number
