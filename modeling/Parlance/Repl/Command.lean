import Parlance.Text.Blank

/-!
# Commands to the interactive session

A command is a dot and a word; loading a file also takes a path.
-/

namespace Parlance

/-- The commands. -/
inductive Command where
  | help
  | quit
  | clear
  | vars
  | reset
  | load (path : String)
  deriving DecidableEq, Repr

/-- Why a line is not a command. -/
inductive CommandFault where
  | noDot
  | empty
  | noPath
  | unknown (name : String)
  deriving DecidableEq, Repr

/-- The wording of a fault. -/
def CommandFault.message : CommandFault → String
  | .noDot => "Commands must start with '.'"
  | .empty => "Empty command"
  | .noPath => "Usage: .load <file>"
  | .unknown name => s!"Unknown command: .{name}"

namespace Command

/-- The command with a name and an argument. -/
def ofName (name argument : String) : Except CommandFault Command :=
  match name with
  | "" => .error .empty
  | "help" | "h" => .ok .help
  | "quit" | "q" | "exit" => .ok .quit
  | "clear" | "cls" => .ok .clear
  | "vars" | "variables" => .ok .vars
  | "reset" => .ok .reset
  | "load" => if argument.isEmpty then .error .noPath else .ok (.load argument)
  | name => .error (.unknown name)

/-- Reads a command. The word ends at the first blank; what follows is the argument. -/
def parse (line : String) : Except CommandFault Command :=
  match Text.trim line.toList with
  | '.' :: body =>
    let (name, rest) := body.span fun c => !Text.isBlank c
    ofName (String.ofList name) (String.ofList (Text.trim rest))
  | _ => .error .noDot

end Command

end Parlance
