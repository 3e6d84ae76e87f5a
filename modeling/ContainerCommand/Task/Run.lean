import ContainerCommand.TaskFile.Basic

/-! Compiling and running a task file.

Running hands the compiled command to an invoker, which is a parameter: what it does, and
to what, is its own affair. A command that cannot be compiled is never handed on. -/
namespace ContainerCommand

/-- A command with the name of its task type. -/
structure CompiledTask where
  task : String
  command : Command

/-- What a process that succeeded has left behind. -/
structure Completion where
  exitCode : Int
  stdout : List UInt8
  stderr : List UInt8
  /-- How many bytes of the output were not kept. -/
  stdoutDropped : Nat
  stderrDropped : Nat
  /-- The file that received the output, if the command redirects it. -/
  log : Option String
deriving DecidableEq

/-- Runs invocations, and may change what it acts on. -/
abbrev Invoker (σ : Type) : Type := Invocation → StateM σ (Outcome Completion)

namespace TaskFile

/-- The command of a task file. The configuration's mounts come first. -/
def compile (file : TaskFile) (config : Config) (registry : Registry) (isOnHost : String → Bool) :
    Outcome CompiledTask := do
  let task ← file.taskType registry
  let rules ← file.mountRules config.mounts
  let command ← (Outcome.ofCompile
    (task.compile registry.base config.launcher isOnHost file.inputs rules)).during
      ("compile task '" ++ task.name ++ "'")
  return ⟨task.name, command⟩

/-- Compiles a task file and has the command invoked. -/
def run {σ : Type} (file : TaskFile) (config : Config) (registry : Registry)
    (isOnHost : String → Bool) (invoke : Invoker σ) :
    StateM σ (Outcome (CompiledTask × Completion)) := do
  match file.compile config registry isOnHost with
  | .error failure => return .error failure
  | .ok compiled =>
    match ← invoke compiled.command.invocation with
    | .error failure => return .error failure
    | .ok completion => return .ok (compiled, completion)

end TaskFile

end ContainerCommand
