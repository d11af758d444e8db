import Parlance.Error
import Parlance.Host.Disk

/-!
# Where programs keep texts

A program writes and reads whole files. They are kept in memory or on a disk, there possibly below a
directory of their own.
-/

namespace Parlance

/-- Where the files of a program are. -/
inductive Files where
  | memory (contents : NameMap String)
  | onDisk (root : Option String)

namespace Files

/-- The path on the disk for a path in a program. An absolute one is not moved below the root. -/
def diskPath (root : Option String) (path : String) : String :=
  match root with
  | none => path
  | some root => if Text.startsWith ['/'] path.toList then path else root ++ "/" ++ path

/-- The disk with the note that a path in a program was used there. -/
def noteUsed (files : Files) (disk : Disk) (path : String) : Disk :=
  match files with
  | .memory _ => disk
  | .onDisk root => disk.noteUsed (diskPath root path)

/-- The text of a file. -/
def read (files : Files) (disk : Disk) (path : String) : Except Error String :=
  match files with
  | .memory contents =>
    match contents.get? path with
    | some text => .ok text
    | none => .error (.cannotRead path "No such file or directory")
  | .onDisk root =>
    match disk.readText (diskPath root path) with
    | .ok text => .ok text
    | .error fault => .error (.cannotRead path fault.message)

/-- Puts a text into a file, in the place of what was there. -/
def write (files : Files) (disk : Disk) (path text : String) : Except Error (Files × Disk) :=
  match files with
  | .memory contents => .ok (.memory (contents.set path text), disk)
  | .onDisk root =>
    match disk.write (diskPath root path) text.toUTF8 with
    | .ok disk => .ok (.onDisk root, disk)
    | .error fault => .error (.cannotWrite path fault.message)

end Files

end Parlance
