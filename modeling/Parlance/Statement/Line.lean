import Parlance.Text.Blank
import Parlance.Text.Cut

/-!
# The lines of a program

Comments and blank lines are dropped before anything else looks at a program, so they never end a
block. A comment starts at a number sign outside quotes.
-/

namespace Parlance

/-- A line of a program that is not blank. -/
structure Line where
  /-- Its place in the source, counted from one. -/
  number : Nat
  /-- How many spaces and tabs it starts with. -/
  indent : Nat
  /-- The rest, without comment and without blanks at either end. -/
  text : List Char
  deriving DecidableEq, Repr

namespace Line

/-- The quote that is open behind a quote character: the same one closes, another one does not
count. -/
def toggleQuote (c : Char) : Option Char → Option Char
  | none => some c
  | some q => if q == c then none else some q

/-- Drops the comment from the rest of a line; `quote` is the quote that is open, `previous` the
character in front. A quote behind a backslash neither opens nor closes. -/
def stripCommentFrom (quote previous : Option Char) : List Char → List Char
  | [] => []
  | c :: rest =>
    if (c == '"' || c == '\'') && previous != some '\\' then
      c :: stripCommentFrom (toggleQuote c quote) (some c) rest
    else if c == '#' && quote.isNone then []
    else c :: stripCommentFrom quote (some c) rest

/-- A line without its comment. -/
def stripComment (text : List Char) : List Char :=
  stripCommentFrom none none text

/-- Whether a character indents a line. -/
def isIndent (c : Char) : Bool :=
  c == ' ' || c == '\t'

/-- A line of the source, unless it is blank. -/
def ofSource? (number : Nat) (source : List Char) : Option Line :=
  let text := Text.trim (stripComment (source.dropWhile isIndent))
  if text.isEmpty then none else some ⟨number, (source.takeWhile isIndent).length, text⟩

/-- The lines of a program that are not blank. -/
def ofProgram (source : List Char) : List Line :=
  (Text.lines source).zipIdx.filterMap fun (line, i) => ofSource? (i + 1) line

/-- The lines at the front that are indented deeper than `base`. -/
def deeper (base : Nat) (lines : List Line) : List Line :=
  lines.takeWhile fun line => base < line.indent

/-- The lines from the first one on that is not indented deeper than `base`. -/
def beyond (base : Nat) (lines : List Line) : List Line :=
  lines.dropWhile fun line => base < line.indent

/-- The lines from a place on that are indented deeper than `base`, and the place behind them. -/
def blockAt (lines : List Line) (start base : Nat) : List Line × Nat :=
  let block := deeper base (lines.drop start)
  (block, min start lines.length + block.length)

theorem length_beyond_le (base : Nat) (lines : List Line) :
    (beyond base lines).length ≤ lines.length :=
  (List.dropWhile_sublist _).length_le

end Line

end Parlance
