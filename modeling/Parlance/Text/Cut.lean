/-!
# Cutting texts

Taking a text apart at fixed words and putting replacements in. Everything works on lists of
characters from the left; a separator is found at its first occurrence unless the name says
otherwise.
-/

namespace Parlance.Text

/-- What follows `head` at the start of the text. -/
def after? (head text : List Char) : Option (List Char) :=
  head.isPrefixOf? text

/-- What comes before `tail` at the end of the text. -/
def before? (tail text : List Char) : Option (List Char) :=
  tail.isSuffixOf? text

/-- Whether the text starts with `head`. -/
def startsWith (head text : List Char) : Bool :=
  head.isPrefixOf text

/-- Whether the last character of the text is `c`. -/
def endsWithChar (c : Char) (text : List Char) : Bool :=
  text.getLast? == some c

/-- The parts of the text on both sides of the first occurrence of `separator`. -/
def splitFirst? (separator : List Char) : List Char → Option (List Char × List Char)
  | [] => if separator.isEmpty then some ([], []) else none
  | c :: rest =>
    match after? separator (c :: rest) with
    | some tail => some ([], tail)
    | none => (splitFirst? separator rest).map fun (head, tail) => (c :: head, tail)

/-- The parts of the text on both sides of the last occurrence of the character `c`. -/
def splitLastChar? (c : Char) : List Char → Option (List Char × List Char)
  | [] => none
  | d :: rest =>
    match splitLastChar? c rest with
    | some (head, tail) => some (d :: head, tail)
    | none => if d == c then some ([], rest) else none

/-- The parts of the text between occurrences of the character `c`; there is always at least
one. -/
def splitChar (c : Char) (text : List Char) : List (List Char) :=
  text.foldr
    (fun d parts =>
      if d == c then [] :: parts
      else
        match parts with
        | [] => [[d]]
        | part :: rest => (d :: part) :: rest)
    [[]]

/-- Replaces occurrences of `word`, going on behind each one; the first argument counts the
characters of an occurrence that are still to be passed over. -/
def replaceFrom (word new : List Char) : Nat → List Char → List Char
  | _, [] => []
  | skip + 1, _ :: rest => replaceFrom word new skip rest
  | 0, c :: rest =>
    if startsWith word (c :: rest) then
      new ++ replaceFrom word new (word.length - 1) rest
    else
      c :: replaceFrom word new 0 rest

/-- Replaces every occurrence of the non-empty `word` by `new`. Occurrences are found from left to
right and do not overlap. -/
def replaceAll (word new text : List Char) : List Char :=
  replaceFrom word new 0 text

/-- A line without the carriage return that stands before its line feed. -/
def dropReturn (line : List Char) : List Char :=
  (before? ['\r'] line).getD line

/-- The lines of a text. A line feed ends a line, a carriage return before it belongs to the line
end, and what follows the last line feed is a line only if it is not empty. -/
def lines (text : List Char) : List (List Char) :=
  let parts := splitChar '\n' text
  parts.dropLast.map dropReturn ++
    match parts.getLast? with
    | none => []
    | some [] => []
    | some last => [last]

/-- The UTF-8 length of a text. -/
def byteLength (text : List Char) : Nat :=
  text.foldl (fun size c => size + c.utf8Size) 0

end Parlance.Text
