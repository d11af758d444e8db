import Parlance.Repl.Collector
import Parlance.Repl.Command
import Parlance.Session

/-!
# The interactive session

A session that takes commands beside sources. What a command answers is a message; the output of
programs goes to the console instead.
-/

namespace Parlance

/-- An interactive session. -/
structure Repl where
  machine : Machine
  isRunning : Bool := true

/-- The messages that a session has given. -/
structure Notices where
  messages : List String := []
  errors : List String := []

/-- Keeps a message, unless it is empty. -/
def Notices.addMessage (notices : Notices) (text : String) : Notices :=
  if text.isEmpty then notices else { notices with messages := notices.messages ++ [text] }

/-- Keeps an error message. -/
def Notices.addError (notices : Notices) (text : String) : Notices :=
  { notices with errors := notices.errors ++ [text] }

namespace Repl

/-- What the help command answers. -/
def helpText : String :=
  "\n".intercalate
    ["Whisper REPL Commands:",
      "  .help         - Show this help message",
      "  .quit         - Exit the REPL",
      "  .clear        - Clear the screen",
      "  .vars         - List variables and story objects",
      "  .reset        - Forget all variables, functions and story objects",
      "  .load <file>  - Run a program file in this session",
      "",
      "A line ending in ':' or '?' starts a block; finish it with an empty line.",
      "",
      "Whisper Sentences:",
      "  - Variables: let x be 5 / remember that name is \"Ada\" / set x to 2",
      "  - Output: show x / tell me \"Hi \" name / announce \"no newline\"",
      "  - Conditions: when x is 5: ... or when ...: ... otherwise: ...",
      "  - Questions: is x greater than 3? then yes: / no: blocks",
      "  - Loops: while x is less than 10: / repeat 3: / for each item in items:",
      "  - Functions: define greet with name: ... give back ... / call greet with \"Ada\"",
      "  - Stories: there is a hero with health 100 / the hero loses 20 health",
      "  - Errors: attempt: ... handle: show error"]

/-- What is sent to a terminal to clear its screen. -/
def clearScreen : String :=
  "\x1b[2J\x1b[1;1H"

/-- The variables, one in a line, and the names of the story objects. -/
def listing (m : Machine) : String :=
  let bound := Session.bindings m
  if bound.isEmpty then "No variables defined."
  else
    let lines := bound.map fun (name, v) => "  " ++ name ++ " = " ++ v.repr m.store.heap
    let objects := Session.objectNames m
    let last := if objects.isEmpty then [] else ["Story objects: " ++ ", ".intercalate objects]
    "\n".intercalate (lines ++ last)

/-- Does what a command says and gives the message that answers it. That a file is missing was
already printed and needs no message. -/
def handle (repl : Repl) (command : Command) : Except SourceFault String × Repl :=
  match command with
  | .help => (.ok helpText, repl)
  | .quit => (.ok "Goodbye!", { repl with isRunning := false })
  | .clear => (.ok "", repl)
  | .vars => (.ok (listing repl.machine), repl)
  | .reset =>
    (.ok "All variables, functions and story objects forgotten.",
      { repl with machine := Session.reset repl.machine })
  | .load path =>
    match Session.runFile path repl.machine with
    | (.ok (), machine) => (.ok s!"Loaded '{path}'", { repl with machine })
    | (.error (.notFound _), machine) => (.ok "", { repl with machine })
    | (.error fault, machine) => (.error fault, { repl with machine })

/-- Runs a source text in the session. -/
def execute (repl : Repl) (code : String) : Except SourceFault Unit × Repl :=
  match Session.runSource code repl.machine with
  | (result, machine) => (result, { repl with machine })

end Repl

end Parlance
