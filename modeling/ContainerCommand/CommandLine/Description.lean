import ContainerCommand.CommandLine.Help
import ContainerCommand.Task.Basic

/-! Task types as the command line describes them.

A task type is described with the parameters of the container runtime that it is compiled
with, each on a line with what it is known by. -/
namespace ContainerCommand

namespace Parameter

/-- What there is to know of a parameter beside its kind, place and template. -/
def notes (p : Parameter) : List String :=
  (if p.isMandatory then ["mandatory"] else []) ++
  (if p.isContainerPath then ["container-path"] else []) ++
  (if p.mustExist then ["exists"] else []) ++
  (match p.nameSource, p.nameTemplate with
    | some source, some template => ["from " ++ source ++ " as " ++ template.raw]
    | _, _ => []) ++
  (if p.requires.isEmpty then [] else ["requires " ++ ",".intercalate p.requires])

/-- The lines of a parameter. -/
def describe (p : Parameter) : String :=
  let columns : List String :=
    [CommandLine.padRight 26 p.name, CommandLine.padRight 9 p.kind.label,
      CommandLine.padRight 9 p.group.label,
      CommandLine.padLeft 3 ((p.position.map Value.intText).getD "-") ++ " ",
      CommandLine.padRight 28 ((p.argument.map Template.Argument.raw).getD "-"),
      " ".intercalate p.notes]
  "  " ++ " ".intercalate columns ++ "\n" ++
    if p.description = "" then "" else "      " ++ p.description ++ "\n"

end Parameter

namespace TaskType

/-- The line that lists a task type. -/
def listed (task : TaskType) : String :=
  task.name ++ "\t" ++ task.summary ++ "\n"

/-- A task type and the parameters that it is compiled with. -/
def describe (task : TaskType) (merged : Schema) : String :=
  task.name ++ ": " ++ task.summary ++ "\n" ++
    (match task.command with
      | some command => "command: " ++ command ++ "\n"
      | none => "") ++
    String.join (merged.params.map Parameter.describe)

end TaskType

end ContainerCommand
