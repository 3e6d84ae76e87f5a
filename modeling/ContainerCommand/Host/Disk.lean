import ContainerCommand.Host.Fault
import ContainerCommand.Path

/-! The files of the host.

A disk says what stands at each place. A path is followed name by name from the root or
from the working directory (`Disk.locate`), so that two dots lead to the directory that
the names before them have reached. Changes come in three kinds, and a plan of faults
(`Faults`) says which of them fail and how much they have done by then. -/
namespace ContainerCommand.Host

/-- The programs that the host can run. -/
inductive Program where
  | shell
  | echo
  | printf
  | cat
  | succeed
  | fail
deriving DecidableEq

/-- What stands at a place. -/
inductive Entry where
  | directory
  | file (content : List UInt8)
  /-- A device that is always empty and keeps nothing. -/
  | sink
  /-- A device without room. -/
  | full
  /-- A stream of whoever opens it. -/
  | stream (number : Nat)
  | program (p : Program)
deriving DecidableEq

/-- The names that lead from the root to a place. -/
abbrev Location : Type := List String

structure Disk where
  entries : List (Location × Entry) := []
  /-- The working directory. -/
  here : Location := []

/-- The changes that are to fail. -/
structure Faults where
  /-- The fault of making directories, and how many are made before. -/
  directories : Option (Nat × Fault) := none
  /-- The fault of writing a file, and how many bytes are written before. -/
  write : Option (Nat × Fault) := none
  rename : Option Fault := none

namespace Disk

/-! ### Places -/

/-- What stands at a place. The root is always a directory. -/
def at? (disk : Disk) (place : Location) : Option Entry :=
  if place = [] then some .directory else disk.entries.lookup place

/-- The disk with an entry at a place. -/
def put (disk : Disk) (place : Location) (entry : Entry) : Disk :=
  { disk with entries := (place, entry) :: disk.entries.filter (·.1 ≠ place) }

/-- The disk with nothing at a place. -/
def remove (disk : Disk) (place : Location) : Disk :=
  { disk with entries := disk.entries.filter (·.1 ≠ place) }

/-- The most bytes of a name. -/
def nameLimit : Nat := 255

/-- The most bytes of a path. -/
def pathLimit : Nat := 4095

/-- Whether a part of a path does not name an entry of the directory that it is looked up in. -/
def isTurn (part : List Char) : Bool :=
  Path.isIdle part || part == ['.', '.']

/-- Where a part of a path leads from a directory. -/
def enter (place : Location) (part : List Char) : Except Fault Location :=
  if Path.isIdle part then .ok place
  else if part = ['.', '.'] then .ok place.dropLast
  else
    let name := String.ofList part
    if nameLimit < name.utf8ByteSize then .error .nameTooLong else .ok (place ++ [name])

/-- Where the parts of a path lead; what stands there is not looked at. -/
def follow (disk : Disk) : Location → List (List Char) → Except Fault Location
  | place, [] => .ok place
  | place, part :: rest =>
    match disk.at? place with
    | some .directory => do follow disk (← enter place part) rest
    | some _ => .error .notDirectory
    | none => .error .notFound

/-- Where a path starts. -/
def start (disk : Disk) (path : List Char) : Location :=
  if path.head? = some '/' then [] else disk.here

/-- Refuses what is no path. -/
def checkPath (path : List Char) : Except Fault Unit :=
  if path.isEmpty then .error .notFound
  else if path.contains '\x00' then .error .nulInPath
  else if pathLimit < (String.ofList path).utf8ByteSize then .error .nameTooLong
  else .ok ()

/-- The place that a path names. -/
def locate (disk : Disk) (path : List Char) : Except Fault Location := do
  checkPath path
  disk.follow (disk.start path) (Path.segments path)

/-- The directory that the last part of a path is looked up in, and that part. Slashes at the end
do not count. -/
def locateLast (disk : Disk) (path : List Char) : Except Fault (Location × List Char) := do
  checkPath path
  let parts := Path.segments (path.reverse.dropWhile (· == '/')).reverse
  let place ← disk.follow (disk.start path) parts.dropLast
  match disk.at? place with
  | some .directory => return (place, parts.getLastD [])
  | some _ => throw .notDirectory
  | none => throw .notFound

/-- What stands where a path leads. -/
def find (disk : Disk) (path : List Char) : Except Fault (Location × Entry) := do
  let place ← disk.locate path
  match disk.at? place with
  | some entry => return (place, entry)
  | none => throw .notFound

def exists? (disk : Disk) (path : List Char) : Bool :=
  (disk.find path).toBool

/-- The bytes of a file. -/
def read (disk : Disk) (path : List Char) : Except Fault (List UInt8) := do
  match ← disk.find path with
  | (_, .file content) => return content
  | (_, .directory) => throw .isDirectory
  | (_, .sink) | (_, .full) | (_, .stream _) | (_, .program _) => return []

/-- The place of a file that is to be written, which may be missing. -/
def locateTarget (disk : Disk) (path : List Char) : Except Fault Location := do
  if path.getLast? = some '/' then
    let _ ← disk.locateLast path
    throw .isDirectory
  let place ← disk.locate path
  if disk.at? place = some .directory then throw .isDirectory
  return place

/-- The disk with a file's content at a place; a device keeps nothing. -/
def store (disk : Disk) (place : Location) (content : List UInt8) : Disk :=
  match disk.at? place with
  | some .sink | some .full | some (.stream _) => disk
  | _ => disk.put place (.file content)

/-! ### Programs -/

/-- Where programs are looked for. -/
def searchPath : List String := ["/usr/bin", "/bin"]

/-- The program at a path. -/
def program (disk : Disk) (path : String) : Except Fault Program := do
  match ← disk.find path.toList with
  | (_, .program p) => return p
  | _ => throw .notPermitted

/-- The program that a name leads to: a path if there is a slash in it, otherwise the first program
of the name where programs are looked for. What else has the name there is the reason why
there is none. -/
def findProgram (disk : Disk) (name : String) : Except Fault Program :=
  if name.contains '/' then disk.program name
  else
    searchPath.foldl
      (fun found directory =>
        match found, disk.program (directory ++ "/" ++ name) with
        | .ok p, _ | .error _, .ok p => .ok p
        | .error fault, .error .notFound => .error fault
        | .error _, .error fault => .error fault)
      (.error .notFound)

/-! ### Changes -/

/-- Makes the directories that are missing along the parts of a path, at most `limit` of them, where
`made` have been made before. A file on the way cannot be entered as long as nothing is missing;
behind what was missing, and at the end of the path, a directory is to be made in its place. -/
def makeAlong (disk : Disk) (limit : Option Nat) :
    Nat → Location → List (List Char) → Option Fault × Disk
  | _, place, [] =>
    match disk.at? place with
    | some .directory => (none, disk)
    | _ => (some .exists, disk)
  | made, place, part :: rest =>
    match disk.at? place, enter place part with
    | some .directory, .error fault => (some fault, disk)
    | some .directory, .ok next =>
      match disk.at? next with
      | some _ => makeAlong disk limit made next rest
      | none =>
        if limit = some made then (some .notPermitted, disk)
        else makeAlong (disk.put next .directory) limit (made + 1) next rest
    | some _, _ => (some (if made = 0 then .notDirectory else .exists), disk)
    | none, _ => (some .notFound, disk)

/-- Makes a directory and those above it. -/
def makeDirectories (disk : Disk) (faults : Faults) (path : List Char) : Option Fault × Disk :=
  let start := disk.start path
  let parts := Path.segments path
  match checkPath path, faults.directories with
  | .error fault, _ => (some fault, disk)
  | .ok (), some (made, fault) => (some fault, (disk.makeAlong (some made) 0 start parts).2)
  | .ok (), none => disk.makeAlong none 0 start parts

/-- Writes a file, which need not be there. -/
def write (disk : Disk) (faults : Faults) (path : List Char) (content : List UInt8) :
    Option Fault × Disk :=
  match disk.locateTarget path with
  | .error fault => (some fault, disk)
  | .ok place =>
    match faults.write with
    | some (written, fault) => (some fault, disk.store place (content.take written))
    | none => (none, disk.store place content)

/-- The place that a file can be moved to: not a directory, nor where only a directory can be. -/
def locateName (disk : Disk) (path : List Char) : Except Fault Location := do
  let (directory, part) ← disk.locateLast path
  if isTurn part then throw .busy
  let place ← enter directory part
  if path.getLast? = some '/' then throw .notDirectory
  if disk.at? place = some .directory then throw .isDirectory
  return place

/-- Gives a file another name; what has that name before is lost. -/
def rename (disk : Disk) (faults : Faults) (source target : List Char) : Option Fault × Disk :=
  match faults.rename, disk.find source, disk.locateName target with
  | some fault, _, _ | none, .error fault, _ | none, .ok _, .error fault => (some fault, disk)
  | none, .ok (old, entry), .ok new => (none, (disk.remove old).put new entry)

end Disk

end ContainerCommand.Host
