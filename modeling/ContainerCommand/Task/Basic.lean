import ContainerCommand.Command.Compile

/-! Task types: a tool that runs inside a container.

A task type declares the parameters of its tool and the command that runs it. It is
compiled together with the parameters of the container runtime, which every task type
shares (`Task/Builtin`). -/
namespace ContainerCommand

/-- A tool with its parameters. -/
structure TaskType where
  name : String
  summary : String
  /-- The command inside the container, unless the caller gives one. -/
  command : Option String
  schema : Schema

/-- The parameter that holds the command inside the container. -/
def commandName : String := "container_command"

namespace TaskType

/-- The parameters of the container runtime and the tool. -/
def merged (task : TaskType) (base : Schema) : Except CompileError Schema :=
  Schema.merge base task.schema

/-- The inputs with the task type's command, if they give none. -/
def withCommand (task : TaskType) (inputs : Inputs) : Inputs :=
  match task.command with
  | none => inputs
  | some command =>
    if inputs.contains commandName then inputs else inputs.insert commandName (.text command)

/-- The command of the task. -/
def compile (task : TaskType) (base : Schema) (launcher : Launcher) (isOnHost : String → Bool)
    (inputs : Inputs) (rules : List MountRule) : Except CompileError Command := do
  (← task.merged base).compile launcher isOnHost (task.withCommand inputs) rules

end TaskType

/-- The parameters of the container runtime and the task types that have a name of their own. -/
structure Registry where
  base : Schema
  tasks : List TaskType

namespace Registry

def get? (registry : Registry) (name : String) : Option TaskType :=
  registry.tasks.find? (·.name == name)

end Registry

end ContainerCommand
