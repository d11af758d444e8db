import Parlance.Statement.Basic
import Parlance.Text.Blank
import Parlance.Text.Cut

/-!
# What a line says

The words at the front of a line, and separating words behind them, decide which statement it
starts. A line that opens a block is only a header here; its block is collected elsewhere.
Separating words are found at their first occurrence, wherever it is.
-/

namespace Parlance

/-- What a line starts. -/
inductive Form where
  /-- A whole statement. -/
  | simple (action : Action)
  | question (condition : String)
  | define (name : String) (params : List String)
  | attempt
  | loopWhile (condition : String)
  | forEach (item iterable : String)
  | loopTimes (count : String)
  | choose (condition : Option String)
  /-- Small talk with nothing to do. -/
  | remark

namespace Form

/-- A part of a line, without blanks at either end. -/
def part (text : List Char) : String :=
  String.ofList (Text.trim text)

/-- What follows some words at the front of a line. -/
def after? (words : String) (text : List Char) : Option (List Char) :=
  Text.after? words.toList text

/-- Whether a line starts with some words. -/
def opensWith (words : String) (text : List Char) : Bool :=
  Text.startsWith words.toList text

/-- The parts of a line around separating words. -/
def around? (words : String) (text : List Char) : Option (List Char × List Char) :=
  Text.splitFirst? words.toList text

/-- The parts of a line that starts with `front` around the words `separator` behind it. -/
def parts? (front separator : String) (text : List Char) : Option (String × String) :=
  ((after? front text).bind (around? separator)).map fun (left, right) => (part left, part right)

/-- The lines that leave a loop. -/
def leaveWords : List String :=
  ["break", "end while", "end loop", "end for", "stop"]

/-- The lines that go on with the next round of a loop. -/
def nextWords : List String :=
  ["continue", "resume while", "resume loop", "resume for", "next", "skip"]

/-- The words that make a statement out of what is said to the listener. -/
def commandWords : List String :=
  ["remember that", "let ", "set ", "so ", "whisper ", "show ", "tell me", "ask ", "when ", "if ",
    "while ", "do ", "repeat ", "for each", "call ", "define ", "make ", "add ", "remove ", "write ",
    "read ", "uppercase ", "lowercase ", "there is", "the ", "is ", "are ", "forget about"]

/-- What is said to the listener: the line behind the first comma, if it opens like a command. Other
lines say what they say. -/
def addressed? (text : List Char) : Option (List Char) :=
  if opensWith "hey whisper," text || opensWith "whisper," text then
    let rest :=
      match around? "," text with
      | some (_, rest) => Text.trim rest
      | none => []
    if commandWords.any fun words => opensWith words rest then some rest else none
  else
    some text

/-- The properties of an object that is introduced: a name and a value between commas. Entries
without a value are left out. -/
def properties (text : List Char) : List (String × String) :=
  (Text.splitChar ',' text).filterMap fun entry =>
    (around? " " (Text.trim entry)).map fun (name, value) => (part name, part value)

/-- An object with its properties. -/
def object (text : List Char) : Action :=
  let text := Text.trim text
  match around? " with " text with
  | some (name, rest) => .createObject (part name) (properties rest)
  | none => .createObject (String.ofList text) []

/-- What an object loses: everything up to the last word is the amount, the last word the
property. -/
def loss (object rest : List Char) : Action :=
  match Text.splitLastChar? ' ' (Text.trim rest) with
  | some (amount, property) =>
    .changeProperty (part object) (part amount) (part property) .decrease
  | none => .changeProperty (part object) (part rest) "value" .decrease

/-- What an object gains: three words name another object's property and the property it goes to;
otherwise the first word is the amount and the rest the property. -/
def gain (object rest : List Char) : Action :=
  let rest := Text.trim rest
  match Text.splitChar ' ' rest with
  | [source, sourceProperty, property] =>
    .transferProperty (part object) (String.ofList source) (String.ofList sourceProperty)
      (String.ofList property)
  | _ =>
    match around? " " rest with
    | some (amount, property) =>
      .changeProperty (part object) (part amount) (part property) .increase
    | none => .changeProperty (part object) (String.ofList rest) "value" .increase

/-- Remembering a value. -/
def remember? (text : List Char) : Option Action := do
  let rest ← after? "remember that " text
  let (name, value) ← around? " is " (Text.trim rest)
  return .assign (part name) (part value)

/-- Forgetting a name. -/
def forget? (text : List Char) : Option Action :=
  (after? "forget about " text).map fun name => .forget (part name)

/-- Introducing an object. -/
def introduce? (text : List Char) : Option Action :=
  ((after? "there is a " text).or (after? "there is an " text)).map object

/-- Telling what happens to an object. -/
def happening? (text : List Char) : Option Action := do
  let subject ← after? "the " text
  match around? " loses " subject with
  | some (name, rest) => return loss name rest
  | none =>
    let (name, rest) ← around? " gains " subject
    return gain name rest

/-- The sentences of a story. -/
def story? (text : List Char) : Option Action :=
  remember? text <|> forget? text <|> introduce? text <|> happening? text

/-- A question: its condition stands between the opening word and the question marks. -/
def question? (text : List Char) : Option Form :=
  if (opensWith "is " text || opensWith "are " text) && Text.endsWithChar '?' text then
    let condition := Text.trim (Text.dropEndWhile (· == '?') (Text.trim text))
    let condition := ((after? "is " condition).or (after? "are " condition)).getD condition
    some (.question (part condition))
  else
    none

/-- The header of a function. -/
def define? (text : List Char) : Option Form := do
  let header ← after? "define " text
  if !Text.endsWithChar ':' text then none
  match around? " with " header with
  | some (name, params) =>
    let params := Text.splitChar ',' (Text.dropEndWhile (· == ':') (Text.trim params))
    return .define (part name) ((params.map part).filter fun p => !p.isEmpty)
  | none => return .define (part (Text.dropEndWhile (· == ':') (Text.trim header))) []

/-- Calling a function: the arguments stand between commas. -/
def call? (text : List Char) : Option Action := do
  let rest ← after? "call " text
  let rest := Text.trim rest
  match around? " with " rest with
  | some (name, args) => return .call (part name) ((Text.splitChar ',' args).map part)
  | none => return .call (String.ofList rest) []

/-- Giving back a value. -/
def giveBack? (text : List Char) : Option Action :=
  (after? "give back " text).map fun value => .giveBack (part value)

/-- Assigning and changing a variable. -/
def assignment? (text : List Char) : Option Action :=
  assign "let " " be " <|> assign "so " " is " <|> assign "set " " to " <|>
    adjust "increase " .increase <|> adjust "decrease " .decrease
where
  assign (front separator : String) : Option Action :=
    (parts? front separator text).map fun (name, value) => .assign name value
  adjust (front : String) (direction : Direction) : Option Action :=
    (parts? front " by " text).map fun (name, amount) => .adjust name amount direction

/-- Asking for an answer; quotes around the question are taken off. -/
def ask? (text : List Char) : Option Action := do
  let rest ← after? "ask " text
  let (prompt, name) ← around? " into " rest
  let prompt := Text.trimChar '\'' (Text.trimChar '"' (Text.trim prompt))
  return .ask (String.ofList prompt) (part name)

/-- Showing a value, with or without an end of line. -/
def display? (text : List Char) : Option Action :=
  show? "whisper " true <|> show? "show " true <|> show? "tell me " true <|>
    show? "just say " true <|> show? "just tell " true <|> show? "announce " false
where
  show? (front : String) (newline : Bool) : Option Action :=
    (after? front text).map fun value => .display (part value) newline

/-- Working with files and changing the case of a text. -/
def transfer? (text : List Char) : Option Action :=
  (parts? "write " " to " text).map (fun (content, path) => .writeTo content path) <|>
    (parts? "read " " into " text).map (fun (path, name) => .readInto path name) <|>
    (parts? "uppercase " " into " text).map (fun (value, name) => .changeCase value name .upper) <|>
    (parts? "lowercase " " into " text).map (fun (value, name) => .changeCase value name .lower)

/-- The header of a loop. -/
def loop? (text : List Char) : Option Form :=
  whileHeader? <|> forEachHeader? <|> doHeader? <|> repeatHeader?
where
  whileHeader? : Option Form := do
    let condition ← Text.before? [':'] (← after? "while " text)
    return .loopWhile (part condition)
  forEachHeader? : Option Form := do
    let header ← Text.before? [':'] (← after? "for each " text)
    let (item, iterable) ← around? " in " header
    return .forEach (part item) (part iterable)
  doHeader? : Option Form := do
    let (count, _) ← around? " times:" (← after? "do " text)
    return .loopTimes (part count)
  repeatHeader? : Option Form := do
    let count ← Text.before? [':'] (← after? "repeat " text)
    return .loopTimes (part count)

/-- Making a list and changing it. -/
def list? (text : List Char) : Option Action :=
  (parts? "make " " with " text).map (fun (name, value) => .assign name value) <|>
    (parts? "add " " to " text).map (fun (item, list) => .append item list) <|>
    (parts? "remove " " from " text).map (fun (item, list) => .remove item list)

/-- The condition in the header of a branch; an empty one is none. -/
def branchCondition (rest : List Char) : Option String :=
  let rest := Text.trim rest
  let rest := Text.trim ((Text.before? [':'] rest).getD rest)
  if rest.isEmpty then none else some (String.ofList rest)

/-- The header of the first branch of a choice. -/
def choose? (text : List Char) : Option Form := do
  let rest ← after? "when " text
  if Text.endsWithChar ':' text then return .choose (branchCondition rest) else none

/-- What a line says once it is clear to whom. -/
def ofSentence (text : List Char) : Form :=
  let found : Option Form :=
    (story? text).map simple <|>
      question? text <|>
      define? text <|>
      (call? text).map simple <|>
      (giveBack? text).map simple <|>
      (if opensWith "attempt:" text then some .attempt else none) <|>
      (assignment? text).map simple <|>
      (ask? text).map simple <|>
      (display? text).map simple <|>
      (transfer? text).map simple <|>
      loop? text <|>
      (list? text).map simple <|>
      choose? text
  found.getD (.simple (.unknown (String.ofList text)))

/-- What a line starts. -/
def ofLine (text : List Char) : Form :=
  if leaveWords.contains (String.ofList text) then .simple .leave
  else if nextWords.contains (String.ofList text) then .simple .next
  else
    match addressed? text with
    | none => .remark
    | some sentence => ofSentence sentence

end Form

end Parlance
