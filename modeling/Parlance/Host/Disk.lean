import Parlance.NameMap
import Parlance.Text.Blank
import Parlance.Text.Cut

/-!
# Files and directories

A disk is a finite set of files and directories below a working directory. Paths are followed step
by step: every step but the last has to lead into a directory, a dot stays, two dots go up.
-/

namespace Parlance

/-- Why a file cannot be used. -/
inductive DiskFault where
  | notFound
  | notDirectory
  | isDirectory
  | nameTooLong
  | nulInName
  | notText
  deriving DecidableEq, Repr

/-- The wording of a fault. -/
def DiskFault.message : DiskFault → String
  | .notFound => "No such file or directory (os error 2)"
  | .notDirectory => "Not a directory (os error 20)"
  | .isDirectory => "Is a directory (os error 21)"
  | .nameTooLong => "File name too long (os error 36)"
  | .nulInName => "file name contained an unexpected NUL byte"
  | .notText => "stream did not contain valid UTF-8"

/-- What a path leads to. -/
inductive DiskEntry where
  | file (bytes : ByteArray)
  | directory

/-- Files and directories by their path. The paths that a run has used are noted, so that whoever
supplies the disk can tell what has to be on it. -/
structure Disk where
  entries : NameMap DiskEntry := {}
  used : List String := []

namespace Disk

/-- A place on the disk: the names from the working directory or, for an absolute path, from the
root, the last one first. Steps above the working directory are kept as two dots. -/
structure Place where
  isAbsolute : Bool
  names : List String

/-- The path of a place, without dots in the middle. -/
def Place.path (place : Place) : String :=
  (if place.isAbsolute then "/" else "") ++ "/".intercalate place.names.reverse

/-- Whether a place is a directory whatever the disk holds: the working directory, the root, and
what lies above them. -/
def Place.isAnchor (place : Place) : Bool :=
  place.names.all (· == "..")

/-- What there is at a place. -/
def entryAt (disk : Disk) (place : Place) : Option DiskEntry :=
  if place.isAnchor then some .directory else disk.entries.get? place.path

/-- The place above a place. -/
def Place.parent (place : Place) : Place :=
  match place.names with
  | [] => if place.isAbsolute then place else { place with names := [".."] }
  | name :: rest =>
    if name == ".." then { place with names := ".." :: name :: rest }
    else { place with names := rest }

/-- The place that a name leads to from a directory. -/
def Place.enter (place : Place) (name : String) : Place :=
  if name == "" || name == "." then place
  else if name == ".." then place.parent
  else { place with names := name :: place.names }

/-- One step along a path. -/
def step (disk : Disk) (place : Place) (name : String) : Except DiskFault Place :=
  match disk.entryAt place with
  | none => .error .notFound
  | some (.file _) => .error .notDirectory
  | some .directory =>
    if 255 < name.utf8ByteSize then .error .nameTooLong else .ok (place.enter name)

/-- Where a path starts. -/
def Place.start (path : String) : Place :=
  ⟨Text.startsWith ['/'] path.toList, []⟩

/-- The names along a path. -/
def namesAlong (path : String) : List String :=
  (Text.splitChar '/' path.toList).map String.ofList

/-- Refuses a text that is no path, whatever the disk holds. -/
def checkPath (path : String) : Except DiskFault Unit := do
  if path.toList.contains '\x00' then throw .nulInName
  if path.isEmpty then throw .notFound
  if 4095 < path.utf8ByteSize then throw .nameTooLong

/-- The place that a path leads to. Only the last name of the path may be missing. -/
def follow (disk : Disk) (path : String) : Except DiskFault Place := do
  checkPath path
  (namesAlong path).foldlM disk.step (Place.start path)

/-- Puts an entry on the disk, under the path of its place. -/
def put (disk : Disk) (path : String) (entry : DiskEntry) : Disk :=
  { disk with entries := disk.entries.set path entry }

/-- The bytes of a file. -/
def readBytes (disk : Disk) (path : String) : Except DiskFault ByteArray := do
  let place ← disk.follow path
  match disk.entryAt place with
  | some (.file bytes) => return bytes
  | some .directory => throw .isDirectory
  | none => throw .notFound

/-- The text in a file. -/
def readText (disk : Disk) (path : String) : Except DiskFault String := do
  let bytes ← disk.readBytes path
  match String.fromUTF8? bytes with
  | some text => return text
  | none => throw .notText

/-- Puts bytes into a file, which is made if its directory exists. A path that ends in a dot, two
dots or a slash asks for a directory, which cannot be written: its last name is not looked up. -/
def write (disk : Disk) (path : String) (bytes : ByteArray) : Except DiskFault Disk := do
  checkPath path
  match (namesAlong path).reverse.dropWhile (· == "") with
  | [] => throw .isDirectory
  | name :: above =>
    let directory ← above.reverse.foldlM disk.step (Place.start path)
    if name == "." || name == ".." || Text.endsWithChar '/' path.toList then
      let _ ← disk.step directory "."
      throw .isDirectory
    let place ← disk.step directory name
    match disk.entryAt place with
    | some .directory => throw .isDirectory
    | _ => return disk.put place.path (.file bytes)

/-- Notes that a path was used. -/
def noteUsed (disk : Disk) (path : String) : Disk :=
  if disk.used.contains path then disk else { disk with used := path :: disk.used }

/-- The paths of the places that a path leads through, the last one included. -/
def placesAlong (path : String) : List String :=
  let places := (namesAlong path).foldl
    (fun places name => (places.headD (Place.start path)).enter name :: places)
    []
  (places.reverse.filter fun place => !place.isAnchor).map Place.path

/-- Makes a directory and those above it. -/
def makeDirectory (disk : Disk) (path : String) : Disk :=
  (placesAlong path).foldl (fun disk above => disk.put above .directory) disk

/-- Puts a file on the disk, with the directories above it. -/
def addFile (disk : Disk) (path : String) (bytes : ByteArray) : Disk :=
  match (placesAlong path).reverse with
  | [] => disk
  | last :: above =>
    (above.foldr (fun above disk => disk.put above .directory) disk).put last (.file bytes)

end Disk

end Parlance
