import ContainerCommand.Config.Basic
import ContainerCommand.Host.Disk
import ContainerCommand.Text.Utf8
import ContainerCommand.Toml.Reader
import ContainerCommand.Toml.Writer

/-! Configurations on disk.

A configuration that is not there is the standard one. It is saved by writing a file
beside it and giving that file its name, so that at no time part of it is to be found
under that name. -/
namespace ContainerCommand

namespace Host.Disk

/-- The text of a file. -/
def readText (disk : Disk) (path : String) : Outcome String := do
  let bytes ← Outcome.ofHost (disk.read path.toList)
  Outcome.ofOption (.host .notText) (Text.decode? bytes)

end Host.Disk

namespace Config
open Host

/-- The configuration that a text holds. -/
def parse (contents : String) : Outcome Config :=
  Outcome.ofOption .malformedDocument ((Toml.read? contents.toList).bind (ofDocument? .toml))

/-- The configuration of a file. -/
def load (disk : Disk) (path : String) : Outcome Config := do
  if !disk.exists? path.toList then
    let standard : Config := {}
    standard.validate
    return standard
  let contents ← (disk.readText path).during ("read " ++ path)
  let config ← (parse contents).during ("parse " ++ path)
  (config.validate).during ("validate " ++ path)
  return config

/-- The configuration as it is written. -/
def text (config : Config) : Outcome String :=
  if Number.fitsWord config.outputLimit then
    match config.toDocument with
    | .table entries => .ok (Toml.write entries ++ "\n")
    | _ => .ok "\n"
  else Outcome.fail .wideLimit

/-- The file that a configuration is written to before it gets its name. -/
def temporary (path : List Char) : List Char :=
  Path.withExtension path "toml.tmp".toList

/-- The outcome of a change of the disk. -/
def outcomeOf (action : String) (change : Option Fault × Disk) : Outcome Unit × Disk :=
  match change with
  | (none, disk) => (.ok (), disk)
  | (some fault, disk) => ((Outcome.fail (.host fault)).during action, disk)

/-- Writes contents under a name, beside it first. -/
def replace (faults : Faults) (path : String) (contents : List UInt8) :
    StateM Disk (Outcome Unit) := fun disk =>
  match Path.parent? path.toList with
  | none => (Outcome.fail (.noParent path), disk)
  | some parent =>
    let made := if parent.isEmpty then (none, disk) else disk.makeDirectories faults parent
    match outcomeOf ("create directory " ++ String.ofList parent) made with
    | (.error failure, disk) => (.error failure, disk)
    | (.ok (), disk) =>
      let beside := temporary path.toList
      match outcomeOf ("write temp config " ++ String.ofList beside)
          (disk.write faults beside contents) with
      | (.error failure, disk) => (.error failure, disk)
      | (.ok (), disk) =>
        outcomeOf ("replace config " ++ path) (disk.rename faults beside path.toList)

/-- Saves a configuration that is valid. -/
def save (faults : Faults) (config : Config) (path : String) : StateM Disk (Outcome Unit) :=
  fun disk =>
    match config.validate with
    | .error failure => (.error failure, disk)
    | .ok () =>
      match config.text.during "serialize config toml" with
      | .error failure => (.error failure, disk)
      | .ok contents => replace faults path (Text.encode contents) disk

end Config

end ContainerCommand
