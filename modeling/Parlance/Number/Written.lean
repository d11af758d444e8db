import Parlance.Number.Shortest

/-!
# How numbers are written

Whole values keep one zero behind the point; magnitudes from 10^16 on and below 10^-4 are written
with an exponent of at least two digits and a sign. The plain form, used where a number token is
named in a message, has neither exponent nor closing zero.
-/

namespace Parlance.Number

/-- An integer in decimal digits. -/
def writeInt (i : Int) : String :=
  match i with
  | .ofNat n => String.ofList (Nat.toDigits 10 n)
  | .negSucc n => String.ofList ('-' :: Nat.toDigits 10 (n + 1))

/-- The digits of a decimal without an exponent, and whether some of them stand behind the
point. -/
def writePositional (d : Shortest.Decimal) : List Char :=
  let digits := Nat.toDigits 10 d.digits
  if 0 ≤ d.exponent then digits ++ List.replicate d.exponent.toNat '0'
  else
    let places := (-d.exponent).toNat
    if places < digits.length then
      digits.take (digits.length - places) ++ '.' :: digits.drop (digits.length - places)
    else
      '0' :: '.' :: (List.replicate (places - digits.length) '0' ++ digits)

/-- A decimal with one digit before the point and an exponent that has a sign and at least two
digits. -/
def writeExponential (d : Shortest.Decimal) : List Char :=
  let digits := Nat.toDigits 10 d.digits
  let exponent : Int := d.exponent + (digits.length - 1 : Nat)
  let sign := if exponent < 0 then '-' else '+'
  let size := Nat.toDigits 10 exponent.natAbs
  let mantissa :=
    match digits with
    | first :: second :: rest => first :: '.' :: second :: rest
    | _ => digits
  mantissa ++ 'e' :: sign :: (List.replicate (2 - size.length) '0' ++ size)

/-- The text of a double that is not finite. -/
def writeSpecial (f : Float) : List Char :=
  if f.isNaN then "nan".toList else if f < 0 then "-inf".toList else "inf".toList

/-- The shortest decimal of the magnitude of a finite double; zero has the digit zero. -/
def magnitudeOf (p : Binary64.Parts) : Shortest.Decimal :=
  if p.mantissa == 0 then ⟨0, 0⟩ else Shortest.decimal p.mantissa p.exponent

/-- Writes a double with a given form for the magnitude of a finite one. -/
def writeWith (form : Shortest.Decimal → List Char) (f : Float) : String :=
  match Binary64.parts? f with
  | none => String.ofList (writeSpecial f)
  | some p =>
    let text := form (magnitudeOf p)
    String.ofList (if p.negative then '-' :: text else text)

/-- Whether a decimal is written with an exponent: it is at least 10^16, or below 10^-4 and not
zero. -/
def needsExponent (d : Shortest.Decimal) : Bool :=
  let size : Int := d.exponent + Shortest.digitCount d.digits
  d.digits != 0 && (16 < size || size ≤ -4)

/-- The text of a double. -/
def writeFloat (f : Float) : String :=
  writeWith
    (fun d =>
      if needsExponent d then writeExponential d
      else if 0 ≤ d.exponent then writePositional d ++ ".0".toList
      else writePositional d)
    f

/-- The text of a double without an exponent and without a closing zero. -/
def writePlain (f : Float) : String :=
  writeWith writePositional f

end Parlance.Number
