import Parlance.Host.Disk
import Parlance.Number.Read
import Parlance.Settings.Read

/-!
# The arguments of the command

An option takes its value from the same argument behind an equals sign, or from the next argument.
A value is checked when the argument behind it is dealt with, so an argument that nobody knows is
complained about first. Behind two dashes every argument is a file.
-/

namespace Parlance

/-- The options with a value. -/
inductive ValueOption where
  | config
  | maxCallDepth
  | maxLoopIterations
  | inputTimeoutMs
  | seed
  deriving DecidableEq, Repr

/-- The option with a given name. -/
def ValueOption.ofName? : String → Option ValueOption
  | "config" => some .config
  | "max-call-depth" => some .maxCallDepth
  | "max-loop-iterations" => some .maxLoopIterations
  | "input-timeout-ms" => some .inputTimeoutMs
  | "seed" => some .seed
  | _ => none

/-- Why arguments are not run: they are wrong, or they ask for something else. -/
inductive UsageFault where
  | unknownArgument
  | invalidValue
  | missingValue
  | repeated
  | unneededValue
  | wantsHelp
  | wantsVersion
  deriving DecidableEq, Repr

/-- What the arguments say. -/
structure Options where
  file : Option String := none
  config : Option String := none
  maxCallDepth : Option Nat := none
  maxLoopIterations : Option Nat := none
  inputTimeoutMs : Option Nat := none
  seed : Option Nat := none
  debug : Bool := false

namespace Options

/-- Reads a number below 2^64; a plus sign may stand before it. -/
def readNumber (text : String) : Except UsageFault Nat :=
  let digits :=
    match text.toList with
    | '+' :: rest => rest
    | chars => chars
  match Number.readNat? digits with
  | some n => if n < UInt64.size then .ok n else .error .invalidValue
  | none => .error .invalidValue

/-- Whether an option was given. -/
def has (options : Options) : ValueOption → Bool
  | .config => options.config.isSome
  | .maxCallDepth => options.maxCallDepth.isSome
  | .maxLoopIterations => options.maxLoopIterations.isSome
  | .inputTimeoutMs => options.inputTimeoutMs.isSome
  | .seed => options.seed.isSome

/-- Gives an option its value; it may not have one yet. -/
def give (options : Options) (option : ValueOption) (value : String) :
    Except UsageFault Options := do
  if options.has option then throw .repeated
  match option with
  | .config => return { options with config := some value }
  | .maxCallDepth => return { options with maxCallDepth := some (← readNumber value) }
  | .maxLoopIterations => return { options with maxLoopIterations := some (← readNumber value) }
  | .inputTimeoutMs => return { options with inputTimeoutMs := some (← readNumber value) }
  | .seed => return { options with seed := some (← readNumber value) }

/-- An option that waits for its value, or for its value to be checked. -/
structure Pending where
  option : ValueOption
  value : Option String

/-- How far the arguments have been read. -/
structure Reading where
  options : Options := {}
  pending : Option Pending := none
  /-- Whether two dashes have gone by. -/
  filesOnly : Bool := false

/-- Deals with the option that was left waiting. -/
def settle (r : Reading) : Except UsageFault Reading :=
  match r.pending with
  | none => .ok r
  | some ⟨_, none⟩ => .error .missingValue
  | some ⟨option, some value⟩ => do
    return { r with options := ← r.options.give option value, pending := none }

/-- Takes an argument that is a file. There is at most one. -/
def takeFile (r : Reading) (arg : String) : Except UsageFault Reading := do
  if r.options.file.isSome then throw .unknownArgument
  let r ← settle r
  return { r with options := { r.options with file := some arg } }

/-- Takes an argument that names a switch or asks for help or the version. -/
def takeSwitch (r : Reading) (name : String) : Except UsageFault Reading := do
  match name with
  | "debug" =>
    let r ← settle r
    if r.options.debug then throw .repeated
    return { r with options := { r.options with debug := true } }
  | "help" =>
    let _ ← settle r
    throw .wantsHelp
  | "version" =>
    let _ ← settle r
    throw .wantsVersion
  | _ => throw .unknownArgument

/-- Takes an argument with two dashes in front: a name, and perhaps a value. -/
def takeLong (r : Reading) (name : String) (value : Option String) :
    Except UsageFault Reading := do
  match ValueOption.ofName? name, value with
  | some option, some value =>
    let r ← settle r
    return { r with options := ← r.options.give option value }
  | some option, none =>
    let r ← settle r
    return { r with pending := some ⟨option, none⟩ }
  | none, none => takeSwitch r name
  | none, some _ =>
    if name == "debug" || name == "help" || name == "version" then throw .unneededValue
    else throw .unknownArgument

/-- Takes an argument with one dash in front. -/
def takeShort (r : Reading) (letters : List Char) : Except UsageFault Reading :=
  match letters with
  | 'h' :: _ => takeSwitch r "help"
  | 'V' :: _ => takeSwitch r "version"
  | _ => .error .unknownArgument

/-- The name in an argument, and the value behind the first equals sign. -/
def splitValue (text : List Char) : String × Option String :=
  match Text.splitFirst? ['='] text with
  | some (name, value) => (String.ofList name, some (String.ofList value))
  | none => (String.ofList text, none)

/-- Takes one argument. -/
def take (r : Reading) (arg : String) : Except UsageFault Reading :=
  if r.filesOnly then takeFile r arg
  else
    match arg.toList with
    | ['-', '-'] => .ok { r with filesOnly := true }
    | '-' :: '-' :: rest =>
      let (name, value) := splitValue rest
      takeLong r name value
    | '-' :: c :: rest => takeShort r (c :: rest)
    | _ =>
      match r.pending with
      | some ⟨option, none⟩ => .ok { r with pending := some ⟨option, some arg⟩ }
      | _ => takeFile r arg

/-- Reads the arguments of the command. -/
def parse (args : List String) : Except UsageFault Options := do
  let r ← args.foldlM take {}
  let r ← settle r
  return r.options

/-- Why the settings cannot be had. -/
inductive SetupFault where
  | noConfig (path : String)
  | badConfig
  deriving DecidableEq, Repr

/-- The wording of a fault. -/
def SetupFault.message : SetupFault → String
  | .noConfig path => s!"cannot read config file '{path}'"
  | .badConfig => "Configuration error"

/-- The settings of a run: those in the configuration file, if there is one, changed by the
options. -/
def settings (options : Options) (disk : Disk) : Except SetupFault Settings := do
  let base : Settings ←
    match options.config with
    | none => pure {}
    | some path =>
      match disk.readText path with
      | .error _ => throw (.noConfig path)
      | .ok text =>
        match Settings.ofJson? text with
        | none => throw .badConfig
        | some settings => pure settings
  return {
    maxLoopIterations := options.maxLoopIterations.getD base.maxLoopIterations
    maxCallDepth := options.maxCallDepth.getD base.maxCallDepth
    inputTimeoutMs := options.inputTimeoutMs.or base.inputTimeoutMs
    randomSeed := options.seed.or base.randomSeed
    debug := options.debug || base.debug }

end Options

end Parlance
