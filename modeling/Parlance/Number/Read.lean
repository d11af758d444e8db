import Parlance.Number.Binary64

/-!
# Reading numbers

Integers are an optional sign and decimal digits within the 64-bit range. Decimals have digits
before or behind an optional point and an optional exponent, and are rounded to the nearest double;
the words for infinity and for a missing number are read in any case.
-/

namespace Parlance.Number

/-- The value of a run of decimal digits. -/
def digitsValue (digits : List Char) : Nat :=
  digits.foldl (fun n c => 10 * n + (c.toNat - '0'.toNat)) 0

/-- Whether an integer fits into 64 bits with a sign. -/
def inInt64 (i : Int) : Bool :=
  Int64.minValue.toInt ≤ i && i ≤ Int64.maxValue.toInt

/-- The 64-bit integer with this value, if there is one. -/
def toInt64? (i : Int) : Option Int64 :=
  if inInt64 i then some (Int64.ofInt i) else none

/-- The 64-bit integer nearest to an integer. -/
def clampInt64 (i : Int) : Int64 :=
  if i < Int64.minValue.toInt then Int64.minValue
  else if Int64.maxValue.toInt < i then Int64.maxValue
  else Int64.ofInt i

/-- Splits an optional sign from a text; the first part tells whether it is a minus. -/
def cutSign : List Char → Bool × List Char
  | '-' :: rest => (true, rest)
  | '+' :: rest => (false, rest)
  | text => (false, text)

/-- Reads a natural number: decimal digits and nothing else. -/
def readNat? (text : List Char) : Option Nat :=
  if !text.isEmpty && text.all Char.isDigit then some (digitsValue text) else none

/-- Reads a 64-bit integer. -/
def readInt? (text : List Char) : Option Int64 :=
  let (negative, digits) := cutSign text
  (readNat? digits).bind fun n => toInt64? (if negative then -(n : Int) else n)

/-- The double nearest to `±digits · 10 ^ exponent`. Exponents that put the value beyond every
finite double, or below every positive one, are settled without computing the power. -/
def ofDecimal (negative : Bool) (digits : Nat) (exponent : Int) : Float :=
  let size : Int := exponent + (Nat.toDigits 10 digits).length
  if digits == 0 || size < -400 then Binary64.withSign negative 0
  else if 400 < size then
    if negative then -Binary64.infinity else Binary64.infinity
  else if 0 ≤ exponent then Binary64.ofRatio negative (digits * Nat.pow 10 exponent.toNat) 1
  else Binary64.ofRatio negative digits (Nat.pow 10 (-exponent).toNat)

/-- Splits the longest run of decimal digits from a text. -/
def cutDigits (text : List Char) : List Char × List Char :=
  text.span Char.isDigit

/-- Reads an exponent behind its mark, to the end of the text. -/
def readExponent? (text : List Char) : Option Int :=
  let (negative, digits) := cutSign text
  (readNat? digits).map fun n => if negative then -(n : Int) else n

/-- Reads an unsigned decimal: digits, an optional point with digits, an optional exponent. There is
at least one digit outside the exponent. -/
def readDecimal? (negative : Bool) (text : List Char) : Option Float :=
  let (whole, rest) := cutDigits text
  let (places, rest) :=
    match rest with
    | '.' :: more => cutDigits more
    | _ => ([], rest)
  if whole.isEmpty && places.isEmpty then none
  else
    let value (exponent : Int) :=
      ofDecimal negative (digitsValue (whole ++ places)) (exponent - places.length)
    match rest with
    | [] => some (value 0)
    | c :: more =>
      if c == 'e' || c == 'E' then (readExponent? more).map value else none

/-- Reads a double: an optional sign and a decimal or one of the words `inf`, `infinity` and
`nan`. -/
def readFloat? (text : List Char) : Option Float :=
  let (negative, body) := cutSign text
  let word := String.ofList (body.map Char.toLower)
  if word == "inf" || word == "infinity" then
    some (if negative then -Binary64.infinity else Binary64.infinity)
  else if word == "nan" then some (0.0 / 0.0)
  else readDecimal? negative body

end Parlance.Number
