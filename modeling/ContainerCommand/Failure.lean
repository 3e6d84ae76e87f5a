import ContainerCommand.CompileError
import ContainerCommand.Host.Fault

/-! Failures of the operations on files and processes.

A failure is a cause together with what was being done, the outermost action first.
Its message is all of that in one line. -/
namespace ContainerCommand

/-- What a process that failed has left behind. -/
structure Execution where
  /-- The exit code, unless a signal has ended the process. -/
  exitCode : Option Int
  stdout : List UInt8
  stderr : List UInt8
deriving DecidableEq

/-- Why an operation failed. -/
inductive Cause where
  | compile (error : CompileError)
  /-- The program ran and did not succeed. -/
  | execution (run : Execution)
  | emptyCommand
  | nulInArgument
  | host (fault : Host.Fault)
  /-- The text is not in the notation that it should be in. -/
  | malformedDocument
  /-- The document does not have the shape of a task file. -/
  | taskShape
  /-- The document has the shape but not the values. -/
  | unreadableRecord
  | unknownTask (name : String)
  | taskOrTool
  | zeroLimit
  | blankBinary
  | blankSubcommand
  | wideLimit
  | noParent (path : String)
deriving DecidableEq

namespace Cause

def message : Cause → String
  | .compile error => error.message
  | .execution run =>
    "execution failed with exit code " ++ match run.exitCode with
      | some code => "Some(" ++ Value.intText code ++ ")"
      | none => "None"
  | .emptyCommand => "compiled command has no program"
  | .nulInArgument => "nul byte found in provided data"
  | .host fault => fault.message
  | .malformedDocument | .unreadableRecord => "TOML parse error"
  | .taskShape => "task file schema validation failed"
  | .unknownTask name => "unknown task type '" ++ name ++ "'"
  | .taskOrTool => "task file must set exactly one of 'task' or 'tool'"
  | .zeroLimit => "output_limit_bytes must be > 0"
  | .blankBinary => "runtime.binary must be non-empty"
  | .blankSubcommand => "runtime.subcommand must be non-empty"
  | .wideLimit => "out-of-range value for u64 type"
  | .noParent path => "config path missing parent " ++ path

end Cause

/-- A cause and what was being done, the outermost action first. -/
structure Failure where
  cause : Cause
  context : List String := []
deriving DecidableEq

/-- A result, or why there is none. -/
abbrev Outcome (α : Type) : Type := Except Failure α

namespace Failure

def message (failure : Failure) : String :=
  ": ".intercalate (failure.context ++ [failure.cause.message])

end Failure

namespace Outcome

/-- The failure of a cause. -/
def fail {α : Type} (cause : Cause) : Outcome α := .error ⟨cause, []⟩

/-- A result or the failure of a cause. -/
def ofOption {α : Type} (cause : Cause) : Option α → Outcome α
  | some a => .ok a
  | none => fail cause

def ofCompile {α : Type} : Except CompileError α → Outcome α
  | .ok a => .ok a
  | .error e => fail (.compile e)

def ofHost {α : Type} : Except Host.Fault α → Outcome α
  | .ok a => .ok a
  | .error fault => fail (.host fault)

/-- Says what is being done in case of failure. -/
def during {α : Type} (action : String) : Outcome α → Outcome α
  | .ok a => .ok a
  | .error failure => .error { failure with context := action :: failure.context }

end Outcome

end ContainerCommand
