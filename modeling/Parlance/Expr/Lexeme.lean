import Parlance.Expr.Token
import Parlance.Text.Blank
import Parlance.Text.Cut
import Parlance.Text.Letter

/-!
# From text to tokens

The text of an expression is cut into lexemes: a token, the characters it is spelled with and the
blanks in front of it. Put one after another, blanks and spellings give back the text up to blanks
at its end, so the place of a token in the text can be read off the lexemes.
-/

namespace Parlance

/-- Why a text cannot be cut into tokens. -/
inductive LexFault where
  | unterminatedString
  | invalidNumber (text : List Char)
  | unexpectedChar (c : Char)
  deriving DecidableEq, Repr

/-- The wording of a fault. -/
def LexFault.message : LexFault → String
  | .unterminatedString => "unterminated string literal"
  | .invalidNumber text => s!"invalid number literal '{String.ofList text}'"
  | .unexpectedChar c => s!"unexpected character '{String.ofList [c]}'"

/-- A token with its spelling and the blanks in front of it. -/
structure Lexeme where
  blank : List Char
  text : List Char
  token : Token

/-- A token cut from the front of a text: the token, its spelling and the rest of the text. -/
structure Cut where
  token : Token
  text : List Char
  rest : List Char

namespace Lexeme

/-- The characters that an escape in a string literal stands for. An unknown escape stands for
itself, backslash included. -/
def unescape : Char → List Char
  | 'n' => ['\n']
  | 't' => ['\t']
  | 'r' => ['\r']
  | '0' => ['\x00']
  | '\\' => ['\\']
  | '"' => ['"']
  | '\'' => ['\'']
  | c => ['\\', c]

/-- Reads a string literal behind its opening quote: its contents, its spelling and the rest. -/
def closeString (quote : Char) : List Char → Option (List Char × List Char × List Char)
  | [] => none
  | ['\\'] => none
  | '\\' :: c :: rest =>
    (closeString quote rest).map fun (content, text, tail) =>
      (unescape c ++ content, '\\' :: c :: text, tail)
  | c :: rest =>
    if c == quote then some ([], [c], rest)
    else
      (closeString quote rest).map fun (content, text, tail) => (c :: content, c :: text, tail)

/-- Whether a character can stand in the digits of a number; underscores may group them. -/
def isDigitOrGap (c : Char) : Bool :=
  c.isDigit || c == '_'

/-- Splits a point and the digits behind it from a text. -/
def cutPoint : List Char → List Char × List Char
  | '.' :: rest =>
    let (digits, tail) := rest.span isDigitOrGap
    ('.' :: digits, tail)
  | text => ([], text)

/-- Splits a sign from a text. -/
def cutExponentSign : List Char → List Char × List Char
  | '+' :: rest => (['+'], rest)
  | '-' :: rest => (['-'], rest)
  | text => ([], text)

/-- Splits an exponent from a text. Without a digit behind the mark there is no exponent. -/
def cutExponent : List Char → List Char × List Char
  | [] => ([], [])
  | c :: rest =>
    if c == 'e' || c == 'E' then
      let (sign, more) := cutExponentSign rest
      let (digits, tail) := more.span Char.isDigit
      if digits.isEmpty then ([], c :: rest) else (c :: sign ++ digits, tail)
    else
      ([], c :: rest)

/-- The token of a number. Digits without point and exponent are an integer if they fit into 64
bits, and a float otherwise. -/
def numberToken (isWhole : Bool) (text : List Char) : Token :=
  let digits := text.filter (· != '_')
  match if isWhole then Number.readInt? digits else none with
  | some i => .int i
  | none => .float ((Number.readFloat? digits).getD 0.0)

/-- Reads a number from the front of a text. -/
def cutNumber (source : List Char) : Except LexFault Cut :=
  let (whole, rest) := source.span isDigitOrGap
  let (point, rest) := cutPoint rest
  let (exponent, rest) := cutExponent rest
  let text := whole ++ point ++ exponent
  match rest with
  | [] => .ok ⟨numberToken (point.isEmpty && exponent.isEmpty) text, text, rest⟩
  | c :: _ =>
    if Text.startsWord c then .error (.invalidNumber (text ++ [c]))
    else .ok ⟨numberToken (point.isEmpty && exponent.isEmpty) text, text, rest⟩

/-- Reads a word from the front of a text. -/
def cutWord (source : List Char) : Cut :=
  let (word, rest) := source.span Text.continuesWord
  let spelling := String.ofList word
  match Keyword.ofSpelling? spelling with
  | some k => ⟨.keyword k, word, rest⟩
  | none => ⟨.name spelling, word, rest⟩

/-- Reads a sign from the front of a text; signs of two characters come first. -/
def cutSign? : List Char → Option Cut
  | '*' :: '*' :: rest => some ⟨.sign .starStar, ['*', '*'], rest⟩
  | '/' :: '/' :: rest => some ⟨.sign .slashSlash, ['/', '/'], rest⟩
  | '=' :: '=' :: rest => some ⟨.sign .equal, ['=', '='], rest⟩
  | '!' :: '=' :: rest => some ⟨.sign .notEqual, ['!', '='], rest⟩
  | '<' :: '=' :: rest => some ⟨.sign .lessEqual, ['<', '='], rest⟩
  | '>' :: '=' :: rest => some ⟨.sign .greaterEqual, ['>', '='], rest⟩
  | '+' :: rest => some ⟨.sign .plus, ['+'], rest⟩
  | '-' :: rest => some ⟨.sign .minus, ['-'], rest⟩
  | '*' :: rest => some ⟨.sign .star, ['*'], rest⟩
  | '/' :: rest => some ⟨.sign .slash, ['/'], rest⟩
  | '%' :: rest => some ⟨.sign .percent, ['%'], rest⟩
  | '<' :: rest => some ⟨.sign .less, ['<'], rest⟩
  | '>' :: rest => some ⟨.sign .greater, ['>'], rest⟩
  | '(' :: rest => some ⟨.sign .openParen, ['('], rest⟩
  | ')' :: rest => some ⟨.sign .closeParen, [')'], rest⟩
  | '[' :: rest => some ⟨.sign .openBracket, ['['], rest⟩
  | ']' :: rest => some ⟨.sign .closeBracket, [']'], rest⟩
  | ',' :: rest => some ⟨.sign .comma, [','], rest⟩
  | _ => none

/-- Whether a text starts with a number: with a digit, or with a point and a digit. -/
def startsNumber : List Char → Bool
  | '.' :: c :: _ => c.isDigit
  | c :: _ => c.isDigit
  | [] => false

/-- Reads one token from a text that does not start with a blank. -/
def cutToken (c : Char) (rest : List Char) : Except LexFault Cut :=
  if c == '"' || c == '\'' then
    match closeString c rest with
    | some (content, text, tail) => .ok ⟨.str (String.ofList content), c :: text, tail⟩
    | none => .error .unterminatedString
  else if startsNumber (c :: rest) then cutNumber (c :: rest)
  else if Text.startsWord c then .ok (cutWord (c :: rest))
  else
    match cutSign? (c :: rest) with
    | some cut => .ok cut
    | none => .error (.unexpectedChar c)

/-- Cuts a text into lexemes. Every token takes at least one character, so the first argument is
never used up if it is at least the length of the text. -/
def scanFuel : Nat → List Char → Except LexFault (List Lexeme)
  | 0, _ => .ok []
  | fuel + 1, source =>
    let (blank, text) := source.span Text.isBlank
    match text with
    | [] => .ok []
    | c :: rest =>
      match cutToken c rest with
      | .error fault => .error fault
      | .ok cut =>
        match scanFuel fuel cut.rest with
        | .error fault => .error fault
        | .ok more => .ok (⟨blank, cut.text, cut.token⟩ :: more)

/-- Cuts a text into lexemes. -/
def scan (source : List Char) : Except LexFault (List Lexeme) :=
  scanFuel source.length source

/-- The characters of a lexeme, blanks included. -/
def chars (l : Lexeme) : List Char :=
  l.blank ++ l.text

/-- A token with the bytes of the text that it was read from. -/
structure Span where
  token : Token
  start : Nat
  stop : Nat

/-- The places of lexemes in a text in which they follow the byte `offset`. -/
def spansFrom (offset : Nat) : List Lexeme → List Span
  | [] => []
  | l :: rest =>
    let start := offset + Text.byteLength l.blank
    let stop := start + Text.byteLength l.text
    ⟨l.token, start, stop⟩ :: spansFrom stop rest

/-- The places of the lexemes of a text. -/
def spans (lexemes : List Lexeme) : List Span :=
  spansFrom 0 lexemes

end Lexeme

/-- The tokens of a text. -/
def Token.scan (source : List Char) : Except LexFault (List Token) :=
  (Lexeme.scan source).map (·.map Lexeme.token)

end Parlance
