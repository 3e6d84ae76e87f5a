import ContainerCommand.CommandLine.Execute
import ContainerCommand.Host.Standard

/-! The program: the command line on the files below the working directory.

The files are read before and those that differ are written after, so everything in
between is a function of them. The programs that can be run are those of the standard
disk. -/
namespace ContainerCommand.Main
open Host

/-- What stands below an entry of a directory, with the entry itself. -/
partial def collect (place : Location) (entry : IO.FS.DirEntry) : IO (List (Location × Entry)) := do
  let own := place ++ [entry.fileName]
  if ← entry.path.isDir then
    let below ← (← entry.path.readDir).toList.mapM (collect own)
    return (own, .directory) :: below.flatten
  else
    let content ← IO.FS.readBinFile entry.path
    return [(own, .file content.toList)]

/-- The disk with what stands below the working directory. -/
def loadDisk : IO Disk := do
  let directory ← IO.currentDir
  let here := directory.components.filter (· != "")
  let entries ← (← directory.readDir).toList.mapM (collect here)
  let above := (List.range here.length).map fun n => (here.take (n + 1), Entry.directory)
  return { entries := above ++ entries.flatten ++ Disk.standard.entries, here }

/-- Writes what a disk has below its working directory and another one has not. -/
def saveDisk (before after : Disk) : IO Unit := do
  for (place, entry) in after.entries.reverse do
    if after.here.isPrefixOf place && before.at? place != some entry then
      let path := "/" ++ "/".intercalate place
      match entry with
      | .directory => IO.FS.createDirAll path
      | .file content =>
        IO.FS.createDirAll ("/" ++ "/".intercalate place.dropLast)
        IO.FS.writeBinFile path (ByteArray.mk content.toArray)
      | .sink | .full | .stream _ | .program _ => pure ()

end ContainerCommand.Main

/-- Answers the words of the command line, and changes the files accordingly. -/
def main (words : List String) : IO UInt32 := do
  let before ← ContainerCommand.Main.loadDisk
  let (answer, after) := ContainerCommand.CommandLine.answer words before
  ContainerCommand.Main.saveDisk before after
  (← IO.getStdout).write (ByteArray.mk answer.stdout.toArray)
  (← IO.getStderr).write (ByteArray.mk answer.stderr.toArray)
  return answer.code.toUInt32
