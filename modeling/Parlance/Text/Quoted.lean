/-!
# Quoted texts

How a text is shown inside a list or a record: between quotes, with backslashes, line ends, tabs
and the chosen quote written as escapes. Single quotes are used unless they would need an escape
that double quotes avoid.
-/

namespace Parlance.Text

/-- The quote put around a text: double exactly when the text holds a single quote and no double
one. -/
def chooseQuote (text : List Char) : Char :=
  if text.contains '\'' && !text.contains '"' then '"' else '\''

/-- One character as it is written between quotes of the kind `quote`. -/
def escapeChar (quote c : Char) : List Char :=
  match c with
  | '\\' => ['\\', '\\']
  | '\n' => ['\\', 'n']
  | '\r' => ['\\', 'r']
  | '\t' => ['\\', 't']
  | c => if c == quote then ['\\', c] else [c]

/-- The quoted form of a text. -/
def quoteChars (text : List Char) : List Char :=
  let quote := chooseQuote text
  quote :: text.flatMap (escapeChar quote) ++ [quote]

/-- The quoted form of a text. -/
def quoted (text : String) : String :=
  String.ofList (quoteChars text.toList)

end Parlance.Text
