import Parlance.Machine.Run
import Parlance.Statement.Block

/-!
# Sessions

A session runs one source after another on the same machine; what a source leaves behind is there
for the next one, until the session is reset.
-/

namespace Parlance

/-- Why a source could not be run to its end. -/
inductive SourceFault where
  | notFound (path : String)
  | unreadable (fault : DiskFault)
  | halted (halt : Halt)

/-- The wording of a fault. -/
def SourceFault.message : SourceFault → String
  | .notFound path => s!"File '{path}' not found"
  | .unreadable fault => s!"I/O error: {fault.message}"
  | .halted (.failed e) => e.message
  | .halted .exhausted => "out of fuel"

namespace Session

/-- A machine at the start of a session, which draws its numbers from a generator. The seed of the
settings wins over the one given here. -/
def start (settings : Settings) (seed : Nat) (console : Console) (files : Files) (disk : Disk)
    (generator : Random.Generator := default) : Machine :=
  { settings, console, files, disk
    store := { random := Random.ofSeed generator (settings.randomSeed.getD seed) } }

/-- Runs a source text. -/
def runSource (source : String) (m : Machine) : Except SourceFault Unit × Machine :=
  match Exec.runProgram (Block.ofProgram source) m with
  | (.ok (), m) => (.ok (), m)
  | (.error halt, m) => (.error (.halted halt), m)

/-- Runs the source text in a file. A missing file is also reported on the console. -/
def runFile (path : String) (m : Machine) : Except SourceFault Unit × Machine :=
  let m := { m with disk := m.disk.noteUsed path }
  match m.disk.readText path with
  | .ok source => runSource source m
  | .error .notFound =>
    let fault := SourceFault.notFound path
    (.error fault, { m with console := m.console.print s!"Error: {fault.message}\n" })
  | .error fault => (.error (.unreadable fault), m)

/-- Forgets all variables, functions and story objects. -/
def reset (m : Machine) : Machine :=
  { m with vars := {}, functions := {}, objects := [], depth := 0 }

/-- The variables in the order of their names. -/
def bindings (m : Machine) : List (String × Value) :=
  m.vars.sorted

/-- The names of the functions in their order. -/
def functionNames (m : Machine) : List String :=
  m.functions.sorted.map Prod.fst

/-- The names of the story objects in the order of their introduction. -/
def objectNames (m : Machine) : List String :=
  m.objects.names

/-- Takes what was printed off the console. -/
def takePrinted (m : Machine) : String × Machine :=
  (m.console.printed, { m with console := { m.console with printed := "" } })

end Session

end Parlance
