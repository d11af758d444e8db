import Parlance.Text.Blank
import Parlance.Text.Cut

/-!
# Collecting blocks

A line that ends in a colon or a question mark opens a block; it is kept with the lines behind it
until a blank line ends the block. Any other line is complete by itself.
-/

namespace Parlance

/-- The lines of a block that is being typed; without a line, none is. -/
structure Collector where
  lines : List String := []

/-- What a line leads to. -/
inductive Progress where
  | complete (code : String)
  | needMore
  deriving DecidableEq, Repr

namespace Collector

/-- Whether a block is being typed. -/
def isCollecting (c : Collector) : Bool :=
  !c.lines.isEmpty

/-- What is shown in front of the next line. -/
def prompt (c : Collector) : String :=
  if c.isCollecting then "... " else ">> "

/-- Whether a line opens a block. -/
def opensBlock (line : String) : Bool :=
  let text := Text.trimEnd line.toList
  Text.endsWithChar ':' text || Text.endsWithChar '?' text

/-- Takes a line. -/
def feed (c : Collector) (line : String) : Progress × Collector :=
  if !c.isCollecting then
    if opensBlock line then (.needMore, ⟨[line]⟩) else (.complete line, c)
  else if (Text.trim line.toList).isEmpty then (.complete ("\n".intercalate c.lines), ⟨[]⟩)
  else (.needMore, ⟨c.lines ++ [line]⟩)

end Collector

end Parlance
