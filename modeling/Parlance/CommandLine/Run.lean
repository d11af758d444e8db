import Parlance.CommandLine.Options
import Parlance.Repl.Basic
import Parlance.Text.Cluster

/-!
# Running the command

The command is a function from its arguments, its input and the disk to what it prints, the disk it
leaves and an exit code. With a file it runs that program; without one it reads commands and
sources from its input.
-/

namespace Parlance.CommandLine

/-- The version of the language. -/
def version : String :=
  "0.1.0"

/-- What this implementation of the language can do. -/
def features : List String :=
  ["core", "story-objects", "functions", "file-io"]

/-- What asking for help prints. -/
def helpText : String :=
  "\n".intercalate
    ["Run Whisper programs written in plain English sentences",
      "",
      "Usage: whisper [OPTIONS] [FILE]",
      "",
      "Arguments:",
      "  [FILE]  Whisper program to run; starts the REPL when omitted",
      "",
      "Options:",
      "      --config <PATH>            JSON configuration file",
      "      --max-call-depth <N>       Deepest allowed nesting of function calls",
      "      --max-loop-iterations <N>  Safety cap on iterations of a single while loop",
      "      --input-timeout-ms <MS>    Give up waiting for `ask` input after this many milliseconds",
      "      --seed <SEED>              Seed for random() and randint()",
      "      --debug                    Enable debug mode",
      "  -h, --help                     Print help",
      "  -V, --version                  Print version",
      ""]

/-- How the command ended. -/
structure Exit where
  code : Nat := 0
  stdout : String := ""
  stderr : String := ""
  disk : Disk := {}

/-- An interactive session that reads its lines from the console's input. A line that cannot be
edited as it asks breaks the session off. -/
structure Loop where
  repl : Repl
  collector : Collector := {}
  stderr : String := ""
  isBroken : Bool := false

namespace Loop

/-- The machine of the session. -/
def machine (l : Loop) : Machine :=
  l.repl.machine

/-- Prints on the console. -/
def print (l : Loop) (text : String) : Loop :=
  let m := l.repl.machine
  { l with repl := { l.repl with machine := { m with console := m.console.print text } } }

/-- Prints an error. -/
def printError (l : Loop) (message : String) : Loop :=
  { l with stderr := l.stderr ++ "Error: " ++ message ++ "\n" }

/-- Runs a source. -/
def submit (l : Loop) (code : String) : Loop :=
  match l.repl.execute code with
  | (.ok (), repl) => { l with repl }
  | (.error fault, repl) => { l with repl }.printError fault.message

/-- Does what a command says. -/
def obey (l : Loop) (line : String) : Loop :=
  match Command.parse line with
  | .error fault => l.printError fault.message
  | .ok command =>
    let l := if command == .clear then l.print Repl.clearScreen else l
    match l.repl.handle command with
    | (.ok message, repl) =>
      let l := { l with repl }
      if message.isEmpty then l else l.print (message ++ "\n")
    | (.error fault, repl) => { l with repl }.printError fault.message

/-- Takes a line: outside a block a blank line does nothing and a dot starts a command. -/
def take (l : Loop) (line : String) : Loop :=
  let text := Text.trim line.toList
  if !l.collector.isCollecting && text.isEmpty then l
  else if !l.collector.isCollecting && Text.startsWith ['.'] text then l.obey line
  else
    match l.collector.feed line with
    | (.complete code, collector) => { l with collector }.submit code
    | (.needMore, collector) => { l with collector }

/-- Ends the session; a block that was left open is run. -/
def finish (l : Loop) : Loop :=
  if l.collector.isCollecting then
    match l.collector.feed "" with
    | (.complete code, collector) => { l with collector }.submit code
    | (.needMore, collector) => { l with collector }
  else l

/-- A typed line without its line feed and the carriage return before that, and with its backspaces
carried out. -/
def lineText? (text : String) : Option String :=
  let line :=
    match Text.before? ['\n'] text.toList with
    | some line => Text.dropReturn line
    | none => text.toList
  (Text.applyBackspaces? line).map String.ofList

/-- Takes the next line off the console's input. -/
def nextLine? (l : Loop) : Option (List UInt8 × Loop) :=
  let m := l.repl.machine
  match m.console.input with
  | .stream source timeoutMs =>
    source.next?.map fun (line, source) =>
      let console := { m.console with input := .stream source timeoutMs }
      (line, { l with repl := { l.repl with machine := { m with console } } })
  | .answers _ => none

/-- Takes lines until the input or the session ends. Every line takes at least one byte of the
input, so the first argument is never used up if it exceeds the length of the input. -/
def runFuel : Nat → Loop → Loop
  | 0, l => l
  | fuel + 1, l =>
    if !l.repl.isRunning then l
    else
      match l.nextLine? with
      | none => l.finish
      | some (line, l) =>
        match textOfBytes? line with
        | none => l.printError Error.inputNotText.message
        | some text =>
          match lineText? text with
          | none => { l with isBroken := true }
          | some line => runFuel fuel (l.take line)

end Loop

/-- The exit code of a session that was broken off. -/
def brokenCode : Nat :=
  101

/-- Reads commands and sources from the input. -/
def interact (settings : Settings) (seed : Nat) (stdin : ByteStream) (disk : Disk)
    (generator : Random.Generator) : Exit :=
  -- There is no time limit on lines of a session.
  let settings := { settings with inputTimeoutMs := none }
  let console : Console := { input := .stream stdin none }
  let start := Session.start settings seed console (.onDisk none) disk generator
  let l := Loop.runFuel (stdin.pending.length + 1) { repl := { machine := start } }
  { code := if l.isBroken then brokenCode else 0, stdout := l.machine.console.printed
    stderr := l.stderr, disk := l.machine.disk }

/-- Runs a program. -/
def runProgram (settings : Settings) (seed : Nat) (path : String) (stdin : ByteStream)
    (disk : Disk) (generator : Random.Generator) : Exit :=
  let console : Console := { input := .stream stdin settings.inputTimeoutMs }
  let start := Session.start settings seed console (.onDisk none) disk generator
  match Session.runFile path start with
  | (.ok (), m) => { stdout := m.console.printed, disk := m.disk }
  | (.error (.notFound _), m) => { code := 1, stdout := m.console.printed, disk := m.disk }
  | (.error fault, m) =>
    { code := 1, stdout := m.console.printed, stderr := s!"Error: {fault.message}\n"
      disk := m.disk }

/-- Runs the command. The seed is used if neither the arguments nor a configuration give one. -/
def run (args : List String) (seed : Nat) (stdin : ByteStream) (disk : Disk)
    (generator : Random.Generator := default) : Exit :=
  match Options.parse args with
  | .error .wantsVersion => { stdout := s!"whisper {version}\n", disk }
  | .error .wantsHelp => { stdout := helpText, disk }
  | .error _ => { code := 2, stderr := "error: invalid arguments\n", disk }
  | .ok options =>
    let disk := (options.config.map disk.noteUsed).getD disk
    match options.settings disk with
    | .error fault => { code := 1, stderr := s!"Error: {fault.message}\n", disk }
    | .ok settings =>
      match options.file with
      | some path => runProgram settings seed path stdin disk generator
      | none => interact settings seed stdin disk generator

end Parlance.CommandLine
