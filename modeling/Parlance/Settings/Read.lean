import Parlance.Settings.Basic
import Parlance.Settings.Json

/-!
# Settings from JSON

An object gives settings by name: unknown names are ignored, a known one may occur once. An array
gives them in their order, and may be short. What is not given keeps its default.
-/

namespace Parlance

/-- The settings that a text has given so far. -/
structure SettingsDraft where
  maxLoopIterations : Option Nat := none
  maxCallDepth : Option Nat := none
  inputTimeoutMs : Option (Option Nat) := none
  randomSeed : Option (Option Nat) := none
  debug : Option Bool := none

namespace SettingsDraft

/-- The settings, with defaults for what was not given. -/
def settings (draft : SettingsDraft) : Settings :=
  let default : Settings := {}
  { maxLoopIterations := draft.maxLoopIterations.getD default.maxLoopIterations
    maxCallDepth := draft.maxCallDepth.getD default.maxCallDepth
    inputTimeoutMs := draft.inputTimeoutMs.getD default.inputTimeoutMs
    randomSeed := draft.randomSeed.getD default.randomSeed
    debug := draft.debug.getD default.debug }

/-- Reads one setting into a draft; it may not have been given before. -/
abbrev Reader := SettingsDraft → List Char → Option (SettingsDraft × List Char)

/-- Reads the limit on rounds of a loop. -/
def readLoops : Reader := fun draft text => do
  if draft.maxLoopIterations.isSome then none
  let (n, rest) ← Json.readNat? text
  return ({ draft with maxLoopIterations := some n }, rest)

/-- Reads the limit on nested calls. -/
def readDepth : Reader := fun draft text => do
  if draft.maxCallDepth.isSome then none
  let (n, rest) ← Json.readNat? text
  return ({ draft with maxCallDepth := some n }, rest)

/-- Reads the time limit for answers. -/
def readTimeout : Reader := fun draft text => do
  if draft.inputTimeoutMs.isSome then none
  let (n, rest) ← Json.readOptionalNat? text
  return ({ draft with inputTimeoutMs := some n }, rest)

/-- Reads the seed of random numbers. -/
def readSeed : Reader := fun draft text => do
  if draft.randomSeed.isSome then none
  let (n, rest) ← Json.readOptionalNat? text
  return ({ draft with randomSeed := some n }, rest)

/-- Reads whether to show details. -/
def readDebug : Reader := fun draft text => do
  if draft.debug.isSome then none
  let (b, rest) ← Json.readBool? text
  return ({ draft with debug := some b }, rest)

/-- The settings by their names, in their order. -/
def readers : List (String × Reader) :=
  [("max_loop_iterations", readLoops), ("max_call_depth", readDepth),
    ("input_timeout_ms", readTimeout), ("random_seed", readSeed), ("debug", readDebug)]

/-- Reads the value of a named setting, or passes over one that is not known. -/
def readNamed (name : String) : Reader := fun draft text =>
  match readers.lookup name with
  | some reader => reader draft text
  | none => (Json.skipValue? text).map fun rest => (draft, rest)

/-- Reads the members of an object and its end. Every member takes at least one character, so the
first argument is never used up if it exceeds the length of the text. -/
def readMembersFuel : Nat → SettingsDraft → List Char → Option (SettingsDraft × List Char)
  | 0, _, _ => none
  | fuel + 1, draft, text =>
    match Json.skipBlank text with
    | '"' :: rest => do
      let (name, rest) ← Json.readString? rest
      match Json.skipBlank rest with
      | ':' :: rest => do
        let (draft, rest) ← readNamed (String.ofList name) draft rest
        match Json.skipBlank rest with
        | ',' :: rest => readMembersFuel fuel draft rest
        | '\x7d' :: rest => return (draft, rest)
        | _ => none
      | _ => none
    | _ => none

/-- Reads an object behind its opening brace. -/
def readObject (text : List Char) : Option (SettingsDraft × List Char) :=
  match Json.skipBlank text with
  | '\x7d' :: rest => some ({}, rest)
  | _ => readMembersFuel (text.length + 1) {} text

/-- Reads the items of an array behind an item, and its end. -/
def readFurther : List Reader → SettingsDraft → List Char → Option (SettingsDraft × List Char)
  | readers, draft, text =>
    match Json.skipBlank text, readers with
    | ']' :: rest, _ => some (draft, rest)
    | ',' :: rest, reader :: readers =>
      match reader draft rest with
      | some (draft, rest) => readFurther readers draft rest
      | none => none
    | _, _ => none

/-- Reads an array behind its opening bracket. -/
def readArray (text : List Char) : Option (SettingsDraft × List Char) :=
  match Json.skipBlank text with
  | ']' :: rest => some ({}, rest)
  | _ => do
    let (draft, rest) ← readLoops {} text
    readFurther ((readers.drop 1).map Prod.snd) draft rest

end SettingsDraft

/-- Reads settings from a JSON text. -/
def Settings.ofJson? (source : String) : Option Settings := do
  let read : Option (SettingsDraft × List Char) :=
    match Json.skipBlank source.toList with
    | '\x7b' :: rest => SettingsDraft.readObject rest
    | '[' :: rest => SettingsDraft.readArray rest
    | _ => none
  let (draft, rest) ← read
  if (Json.skipBlank rest).isEmpty then return draft.settings else none

end Parlance
