import Parlance.CommandLine.Run

/-!
# The command

The command is computed on a disk that starts out empty. The paths that a run has used tell which
files to fetch; the run is repeated with them until it uses no further path, and only then is its
outcome printed and written. Input is read to its end before the first run. Random numbers come from
a small generator that counts and mixes the bits of what it has counted to.
-/

namespace Parlance.Main

/-- What there is at a path. -/
def fetch (path : String) : IO (Option DiskEntry) := do
  try
    return some (.file (← IO.FS.readBinFile path))
  catch e =>
    match e with
    -- A directory can be opened, but not read.
    | .inappropriateType _ 21 _ => return some .directory
    | _ => return none

/-- Fetches what a path leads through. -/
def supply (disk : Disk) (path : String) : IO Disk :=
  (Disk.placesAlong path).foldlM
    (fun disk place => do
      if disk.entries.contains place then return disk
      match ← fetch place with
      | some entry => return disk.put place entry
      | none => return disk)
    disk

/-- Runs the command on a disk with everything on it that the run uses. -/
partial def settle (run : Disk → CommandLine.Exit) (disk : Disk) (known : List String) :
    IO (Disk × CommandLine.Exit) := do
  let exit := run disk
  match exit.disk.used.filter fun path => !known.contains path with
  | [] => return (disk, exit)
  | fresh =>
    let disk ← fresh.foldlM supply disk
    settle run disk (fresh ++ known)

/-- Reads a stream to its end. -/
partial def readToEnd (stream : IO.FS.Stream) (bytes : ByteArray) : IO ByteArray := do
  let chunk ← stream.read 65536
  if chunk.isEmpty then return bytes else readToEnd stream (bytes ++ chunk)

/-- Whether a file on the disk has other bytes than an entry. -/
def differs (old : Option DiskEntry) (bytes : ByteArray) : Bool :=
  match old with
  | some (.file oldBytes) => oldBytes != bytes
  | _ => true

/-- Writes the files that a run has changed. -/
def store (before after : Disk) : IO Unit :=
  after.entries.entries.forM fun (path, entry) => do
    match entry with
    | .file bytes =>
      if differs (before.entries.get? path) bytes then IO.FS.writeBinFile path bytes
    | .directory => return

/-- The count behind a draw, and the 64 bits that are drawn. -/
def nextBits (state : Nat) : UInt64 × Nat :=
  let count := UInt64.ofNat state + 0x9E3779B97F4A7C15
  let z := (count ^^^ (count >>> 30)) * 0xBF58476D1CE4E5B9
  let z := (z ^^^ (z >>> 27)) * 0x94D049BB133111EB
  (z ^^^ (z >>> 31), count.toNat)

/-- An integer between two bounds, picked by some bits. -/
def pick (low high : Int64) (bits : UInt64) : Int64 :=
  Int64.ofInt (low.toInt + bits.toNat % (high.toInt - low.toInt + 1))

theorem pick_mem {low high : Int64} (h : low.toInt ≤ high.toInt) (bits : UInt64) :
    low.toInt ≤ (pick low high bits).toInt ∧ (pick low high bits).toInt ≤ high.toInt := by
  have hlow := low.le_toInt
  have hhigh := high.toInt_lt
  have hnonneg := Int.emod_nonneg bits.toNat (by omega : high.toInt - low.toInt + 1 ≠ 0)
  have hlt := Int.emod_lt_of_pos bits.toNat (by omega : 0 < high.toInt - low.toInt + 1)
  rw [pick, Int64.toInt_ofInt_of_le (by omega) (by omega)]
  omega

/-- The generator of the command. -/
def generator : Random.Generator where
  start := id
  unit state :=
    let (bits, state) := nextBits state
    (Float.ofScientific (bits.toNat >>> 11) false 0 / 9007199254740992.0, state)
  between low high state :=
    let (bits, state) := nextBits state
    (pick low high bits, state)
  between_mem h state := pick_mem h (nextBits state).1

/-- A seed for runs that do not choose one. -/
def freshSeed : IO Nat := do
  let bytes ← IO.getRandomBytes 8
  return bytes.toList.foldl (fun n b => 256 * n + b.toNat) 0

end Parlance.Main

open Parlance in
/-- Runs the command with its arguments and gives its exit code. -/
def main (args : List String) : IO UInt32 := do
  let stdout ← IO.getStdout
  let stderr ← IO.getStderr
  let input ← Main.readToEnd (← IO.getStdin) ByteArray.empty
  let seed ← Main.freshSeed
  let run (disk : Disk) :=
    CommandLine.run args seed { pending := input.toList } disk Main.generator
  let (disk, exit) ← Main.settle run {} []
  stdout.putStr exit.stdout
  stdout.flush
  stderr.putStr exit.stderr
  Main.store disk exit.disk
  return UInt32.ofNat exit.code
