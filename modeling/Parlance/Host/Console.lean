import Parlance.Error
import Parlance.Text.Blank

/-!
# Printing and asking

A console keeps what was printed and hands out answers: scripted ones in their order, or the lines
of a stream of bytes. A stream may be held open without data, and then waiting for it runs into the
time limit. Printing never fails: an output that refuses a text, so that the statement that prints
fails, is left out.
-/

namespace Parlance

/-- A stream of bytes that lines are read from. -/
structure ByteStream where
  pending : List UInt8
  /-- Whether the stream stays open behind its bytes. -/
  isHeld : Bool := false

namespace ByteStream

/-- The bytes of the next line, its end included, and the stream behind it. What follows the last
line end of a stream that is held open is not a line yet. -/
def next? (stream : ByteStream) : Option (List UInt8 × ByteStream) :=
  let (line, rest) := stream.pending.span (· != 10)
  match rest with
  | stop :: rest => some (line ++ [stop], { stream with pending := rest })
  | [] =>
    if line.isEmpty || stream.isHeld then none
    else some (line, { stream with pending := [] })

/-- The stream behind a line that could not be read by a waiting reader, which then gives up. -/
def closed : ByteStream :=
  { pending := [] }

end ByteStream

/-- The text of some bytes. -/
def textOfBytes? (bytes : List UInt8) : Option String :=
  String.fromUTF8? (ByteArray.mk bytes.toArray)

/-- Where answers come from. -/
inductive Input where
  | answers (lines : List String)
  | stream (source : ByteStream) (timeoutMs : Option Nat)

/-- Text output and line input. -/
structure Console where
  printed : String := ""
  input : Input := .answers []

namespace Console

/-- Prints a text as it is. The output takes every text. -/
def print (console : Console) (text : String) : Console :=
  { console with printed := console.printed ++ text }

/-- A line without its end. -/
def lineText (text : String) : String :=
  String.ofList (Text.dropEndWhile (fun c => c == '\n' || c == '\r') text.toList)

/-- The next line of a stream, as an answer. A reader with a time limit stops for good at a line that
is not text. -/
def streamAnswer (source : ByteStream) (timeoutMs : Option Nat) :
    Except Error String × ByteStream :=
  match source.next? with
  | some (line, rest) =>
    match textOfBytes? line with
    | some text => (.ok (lineText text), rest)
    | none => (.error .inputNotText, if timeoutMs.isSome then .closed else rest)
  | none =>
    match timeoutMs, source.isHeld with
    | some limit, true => (.error (.inputTimeout limit), source)
    | _, _ => (.error .endOfInput, source)

/-- Prints a prompt and reads an answer. -/
def ask (console : Console) (prompt : String) : Except Error String × Console :=
  let console := console.print prompt
  match console.input with
  | .answers [] => (.error .endOfInput, console)
  | .answers (line :: rest) => (.ok line, { console with input := .answers rest })
  | .stream source timeoutMs =>
    let (answer, source) := streamAnswer source timeoutMs
    (answer, { console with input := .stream source timeoutMs })

/-- Adds a scripted answer behind the others. -/
def pushAnswer (console : Console) (line : String) : Console :=
  match console.input with
  | .answers lines => { console with input := .answers (lines ++ [line]) }
  | .stream .. => console

end Console

end Parlance
