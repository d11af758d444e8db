/-!
# Doubles as exact fractions

A finite double is a whole number times a power of two. This module takes doubles apart, rounds
fractions back to the nearest double (ties to the even mantissa) and defines the operations that
are exact on the fraction: integer parts, rounding to whole values and the remainder.
-/

namespace Parlance.Binary64

/-- A power of two. -/
def pow2 (n : Nat) : Nat :=
  1 <<< n

/-- The value `±mantissa · 2 ^ exponent`. -/
structure Parts where
  negative : Bool
  mantissa : Nat
  exponent : Int
  deriving DecidableEq, Repr

/-- Whether the sign bit of a double is set. -/
def isNegative (f : Float) : Bool :=
  f.toBits.toNat / pow2 63 == 1

/-- The parts of a finite double; an infinity or a NaN has none. -/
def parts? (f : Float) : Option Parts :=
  let bits := f.toBits.toNat
  let fraction : Nat := bits % pow2 52
  let biased : Nat := bits / pow2 52 % pow2 11
  if biased == 2047 then none
  else if biased == 0 then some ⟨isNegative f, fraction, -1074⟩
  else some ⟨isNegative f, pow2 52 + fraction, (biased : Int) - 1075⟩

/-- Whether a double is neither infinite nor a NaN. -/
def isFinite (f : Float) : Bool :=
  (parts? f).isSome

/-- The double with a given sign and the bits of a non-negative double. -/
def withSign (negative : Bool) (bits : Nat) : Float :=
  Float.ofBits (UInt64.ofNat (if negative then pow2 63 + bits else bits))

/-- Positive infinity. -/
def infinity : Float :=
  Float.ofBits 0x7FF0000000000000

/-- A quotient rounded to the nearest whole number, ties to the even one. -/
def roundQuotient (num den : Nat) : Nat :=
  let q := num / den
  let r := num % den
  if 2 * r < den then q
  else if 2 * r > den then q + 1
  else q + q % 2

/-- `num / den` scaled by `2 ^ -shift`, as a numerator and a denominator. -/
def scale (num den : Nat) (shift : Int) : Nat × Nat :=
  if 0 ≤ shift then (num, den * pow2 shift.toNat) else (num * pow2 (-shift).toNat, den)

/-- The exponent of the last mantissa bit of the double nearest to `num / den`. It is chosen so
that the scaled quotient has 53 binary digits, or is the least exponent there is. -/
def unitExponent (num den : Nat) : Int :=
  let guess : Int := (num.log2 : Int) - den.log2 - 52
  let (n, d) := scale num den guess
  let exact := if n < d * pow2 52 then guess - 1 else guess
  max exact (-1074)

/-- The double nearest to `±num / den`, ties to the even mantissa; too large a quotient gives an
infinity. The denominator is not zero. -/
def ofRatio (negative : Bool) (num den : Nat) : Float :=
  if num == 0 then withSign negative 0
  else
    let exponent := unitExponent num den
    let (n, d) := scale num den exponent
    let mantissa := roundQuotient n d
    -- A mantissa that rounded up to 2 ^ 53 carries into the exponent field by itself.
    let bits :=
      if mantissa < pow2 52 then mantissa
      else (exponent + 1075).toNat * pow2 52 + (mantissa - pow2 52)
    withSign negative (min bits (2047 * pow2 52))

/-- The double with the given parts, rounded if the mantissa is too long. -/
def ofParts (p : Parts) : Float :=
  if 0 ≤ p.exponent then ofRatio p.negative (p.mantissa * pow2 p.exponent.toNat) 1
  else ofRatio p.negative p.mantissa (pow2 (-p.exponent).toNat)

/-- The double nearest to an integer. -/
def ofInt (i : Int) : Float :=
  ofRatio (i < 0) i.natAbs 1

/-- The whole number next to `±num / den` that a rounding rule picks; the rule is asked whether to
go away from zero, given the sign, the truncated quotient, the remainder and the denominator. -/
def wholeWith (away : Bool → Nat → Nat → Nat → Bool) (f : Float) : Float :=
  match parts? f with
  | none => f
  | some p =>
    if 0 ≤ p.exponent then f
    else
      let den := pow2 (-p.exponent).toNat
      let q := p.mantissa / den
      let r := p.mantissa % den
      ofRatio p.negative (if away p.negative q r den then q + 1 else q) 1

/-- The greatest whole value that is not above the double. -/
def floor (f : Float) : Float :=
  wholeWith (fun negative _ r _ => negative && r != 0) f

/-- The least whole value that is not below the double. -/
def ceil (f : Float) : Float :=
  wholeWith (fun negative _ r _ => !negative && r != 0) f

/-- The nearest whole value, ties to the even one. -/
def roundEven (f : Float) : Float :=
  wholeWith (fun _ q r den => 2 * r > den || (2 * r == den && q % 2 == 1)) f

/-- The integer part of a finite double, toward zero. -/
def truncate? (f : Float) : Option Int :=
  (parts? f).map fun p =>
    let whole : Nat :=
      if 0 ≤ p.exponent then p.mantissa * pow2 p.exponent.toNat
      else p.mantissa / pow2 (-p.exponent).toNat
    if p.negative then -(whole : Int) else whole

/-- Whether a double is finite and has no fractional part. -/
def isWhole (f : Float) : Bool :=
  match parts? f with
  | none => false
  | some p => 0 ≤ p.exponent || p.mantissa % pow2 (-p.exponent).toNat == 0

/-- The remainder of the truncated division of `a` by `b`, exact and with the sign of `a`. An
infinite divisor leaves a finite dividend as it is; an infinite dividend and a zero divisor have
no remainder. -/
def remainder (a b : Float) : Float :=
  match parts? a, parts? b with
  | some p, some q =>
    if q.mantissa == 0 then 0.0 / 0.0
    else
      let unit := min p.exponent q.exponent
      let n := p.mantissa * pow2 (p.exponent - unit).toNat
      let d := q.mantissa * pow2 (q.exponent - unit).toNat
      ofParts ⟨p.negative, n % d, unit⟩
  | some _, none => if b.isNaN then b else a
  | none, _ => 0.0 / 0.0

/-- The power of a double to a natural number, by repeated squaring from the lowest binary digit
up. The first argument bounds the number of digits. -/
def powNatFuel : Nat → Float → Nat → Float → Float
  | 0, _, _, acc => acc
  | fuel + 1, base, n, acc =>
    let acc := if n % 2 == 1 then acc * base else acc
    if n / 2 == 0 then acc else powNatFuel fuel (base * base) (n / 2) acc

/-- The power of a double to an integer; a negative one gives the reciprocal of the positive
power. -/
def powInt (base : Float) (n : Int) : Float :=
  let p := powNatFuel (n.natAbs.log2 + 1) base n.natAbs 1.0
  if n < 0 then 1.0 / p else p

end Parlance.Binary64
