import Parlance.Number.Read
import Parlance.Text.Cut

/-!
# Reading JSON texts

Readers take a list of characters and return what they read with the characters behind it. Values
that nobody asks for are passed over: their form is checked, but their strings are not decoded, so
an escape may name half of a surrogate pair there.
-/

namespace Parlance.Json

/-- The text without blanks in front. -/
def skipBlank (text : List Char) : List Char :=
  text.dropWhile fun c => c == ' ' || c == '\t' || c == '\n' || c == '\r'

/-- The value of a hexadecimal digit. -/
def hexValue? (c : Char) : Option Nat :=
  if c.isDigit then some (c.toNat - '0'.toNat)
  else if 'a' ≤ c && c ≤ 'f' then some (c.toNat - 'a'.toNat + 10)
  else if 'A' ≤ c && c ≤ 'F' then some (c.toNat - 'A'.toNat + 10)
  else none

/-- The value of four hexadecimal digits. -/
def hexFour? (a b c d : Char) : Option Nat := do
  return (((← hexValue? a) * 16 + (← hexValue? b)) * 16 + (← hexValue? c)) * 16 + (← hexValue? d)

/-- The character that a one-letter escape stands for. -/
def escape? : Char → Option Char
  | '"' => some '"'
  | '\\' => some '\\'
  | '/' => some '/'
  | 'b' => some '\x08'
  | 'f' => some '\x0c'
  | 'n' => some '\n'
  | 'r' => some '\r'
  | 't' => some '\t'
  | _ => none

/-- Whether a code unit is the first half of a surrogate pair. -/
def isHighSurrogate (n : Nat) : Bool :=
  0xD800 ≤ n && n ≤ 0xDBFF

/-- Whether a code unit is the second half of a surrogate pair. -/
def isLowSurrogate (n : Nat) : Bool :=
  0xDC00 ≤ n && n ≤ 0xDFFF

/-- Reads a string behind its opening quote. -/
def readString? : List Char → Option (List Char × List Char)
  | [] => none
  | '"' :: rest => some ([], rest)
  | '\\' :: 'u' :: a :: b :: c :: d :: rest =>
    match hexFour? a b c d with
    | none => none
    | some n =>
      if isHighSurrogate n then
        match rest with
        | '\\' :: 'u' :: e :: f :: g :: h :: tail =>
          match hexFour? e f g h with
          | none => none
          | some low =>
            if isLowSurrogate low then
              (readString? tail).map fun (text, rest) =>
                (Char.ofNat (0x10000 + (n - 0xD800) * 0x400 + (low - 0xDC00)) :: text, rest)
            else none
        | _ => none
      else if isLowSurrogate n then none
      else (readString? rest).map fun (text, rest) => (Char.ofNat n :: text, rest)
  | '\\' :: c :: rest =>
    match escape? c with
    | none => none
    | some e => (readString? rest).map fun (text, rest) => (e :: text, rest)
  | c :: rest =>
    if c.toNat < 32 then none else (readString? rest).map fun (text, rest) => (c :: text, rest)

/-- Passes over a string behind its opening quote. -/
def skipString? : List Char → Option (List Char)
  | [] => none
  | '"' :: rest => some rest
  | '\\' :: 'u' :: a :: b :: c :: d :: rest =>
    match hexFour? a b c d with
    | none => none
    | some _ => skipString? rest
  | '\\' :: c :: rest =>
    match escape? c with
    | none => none
    | some _ => skipString? rest
  | c :: rest => if c.toNat < 32 then none else skipString? rest

/-- Reads the digits of a whole number, which has no zero in front of other digits. -/
def readDigits? (text : List Char) : Option (List Char × List Char) :=
  match text.span Char.isDigit with
  | ([], _) => none
  | ('0' :: _ :: _, _) => none
  | (digits, rest) => some (digits, rest)

/-- Passes over at least one digit. -/
def skipDigits? (text : List Char) : Option (List Char) :=
  match text.span Char.isDigit with
  | ([], _) => none
  | (_, rest) => some rest

/-- Passes over an exponent, if there is one. -/
def skipExponent? : List Char → Option (List Char)
  | [] => some []
  | c :: rest =>
    if c == 'e' || c == 'E' then
      match rest with
      | '+' :: more => skipDigits? more
      | '-' :: more => skipDigits? more
      | more => skipDigits? more
    else some (c :: rest)

/-- Passes over a number without a sign. -/
def skipUnsigned? (text : List Char) : Option (List Char) := do
  let (_, rest) ← readDigits? text
  match rest with
  | '.' :: more => skipExponent? (← skipDigits? more)
  | _ => skipExponent? rest

mutual

/-- Passes over a value. The first argument bounds the depth and is never used up if it exceeds the
length of the text. -/
def skipValueFuel : Nat → List Char → Option (List Char)
  | 0, _ => none
  | fuel + 1, text =>
    match skipBlank text with
    | 'n' :: 'u' :: 'l' :: 'l' :: rest => some rest
    | 't' :: 'r' :: 'u' :: 'e' :: rest => some rest
    | 'f' :: 'a' :: 'l' :: 's' :: 'e' :: rest => some rest
    | '"' :: rest => skipString? rest
    | '-' :: rest => skipUnsigned? rest
    | '[' :: rest =>
      match skipBlank rest with
      | ']' :: rest => some rest
      | rest => skipItemsFuel fuel rest
    | '\x7b' :: rest =>
      match skipBlank rest with
      | '\x7d' :: rest => some rest
      | rest => skipMembersFuel fuel rest
    | rest => skipUnsigned? rest

/-- Passes over the items of an array and its end. -/
def skipItemsFuel : Nat → List Char → Option (List Char)
  | 0, _ => none
  | fuel + 1, text =>
    match skipValueFuel fuel text with
    | none => none
    | some rest =>
      match skipBlank rest with
      | ',' :: rest => skipItemsFuel fuel rest
      | ']' :: rest => some rest
      | _ => none

/-- Passes over the members of an object and its end. -/
def skipMembersFuel : Nat → List Char → Option (List Char)
  | 0, _ => none
  | fuel + 1, text =>
    match skipBlank text with
    | '"' :: rest =>
      match skipString? rest with
      | none => none
      | some rest =>
        match skipBlank rest with
        | ':' :: rest =>
          match skipValueFuel fuel rest with
          | none => none
          | some rest =>
            match skipBlank rest with
            | ',' :: rest => skipMembersFuel fuel rest
            | '\x7d' :: rest => some rest
            | _ => none
        | _ => none
    | _ => none

end

/-- Passes over a value. -/
def skipValue? (text : List Char) : Option (List Char) :=
  skipValueFuel (text.length + 1) text

/-- Reads a natural number below 2^64. A sign, a point or an exponent makes it something else. -/
def readNat? (text : List Char) : Option (Nat × List Char) := do
  let (digits, rest) ← readDigits? (skipBlank text)
  let n := Number.digitsValue digits
  if UInt64.size ≤ n then none
  match rest with
  | [] => return (n, rest)
  | c :: _ => if c == '.' || c == 'e' || c == 'E' then none else return (n, rest)

/-- Reads a natural number or null. -/
def readOptionalNat? (text : List Char) : Option (Option Nat × List Char) :=
  match skipBlank text with
  | 'n' :: 'u' :: 'l' :: 'l' :: rest => some (none, rest)
  | rest => (readNat? rest).map fun (n, rest) => (some n, rest)

/-- Reads a truth value. -/
def readBool? (text : List Char) : Option (Bool × List Char) :=
  match skipBlank text with
  | 't' :: 'r' :: 'u' :: 'e' :: rest => some (true, rest)
  | 'f' :: 'a' :: 'l' :: 's' :: 'e' :: rest => some (false, rest)
  | _ => none

end Parlance.Json
