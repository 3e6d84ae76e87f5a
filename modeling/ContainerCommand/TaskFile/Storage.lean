import ContainerCommand.Config.Storage
import ContainerCommand.Task.Run
import ContainerCommand.TaskFile.Parse

/-! Task files on disk. -/
namespace ContainerCommand.TaskFile
open Host

/-- The task file at a path. -/
def load (disk : Disk) (path : String) : Outcome TaskFile := do
  let contents ← (disk.readText path).during ("read task file " ++ path)
  (parse contents).during ("load task file " ++ path)

/-- Whether there is something at a path of the disk. -/
def isOn (disk : Disk) (path : String) : Bool :=
  disk.exists? path.toList

/-- The command of the task file at a path, compiled for the host that the file is on. -/
def compileAt (disk : Disk) (path : String) (config : Config) (registry : Registry) :
    Outcome CompiledTask := do
  (← load disk path).compile config registry (isOn disk)

end ContainerCommand.TaskFile
