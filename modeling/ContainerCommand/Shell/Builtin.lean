import ContainerCommand.Shell.Builtin.Directory
import ContainerCommand.Shell.Builtin.Limit
import ContainerCommand.Shell.Builtin.Signal
import ContainerCommand.Shell.Builtin.Variable
import ContainerCommand.Shell.Condition
import ContainerCommand.Shell.Format
import ContainerCommand.Shell.Lookup

/-! The commands of the shell itself that run no others, by their names. -/
namespace ContainerCommand.Shell.Act

/-- Writes what `printf` makes of its arguments. -/
def formatCommand (args : List String) : Act Nat := do
  let args ← withoutOptions args
  if args.isEmpty then fail "usage: printf format [arg ...]"
  let written := printf .builtin ("--" :: args)
  written.complaints.forM complain
  putBytes written.bytes
  return written.status

/-- Finds the truth of a condition. -/
def decideCommand (name : String) (args : List String) : Act Nat := do
  let find ← finder
  match if name == "[" then Condition.holdsBetween find args else Condition.holds find args with
  | .ok truth => return if truth then 0 else 1
  | .error fault => fail fault.message

/-- Leaves loops, or goes on with another round; outside loops this does nothing. -/
def leaveLoops (goesOn : Bool) (args : List String) : Act Nat := do
  let count ← match args.head? with
    | some arg => number arg
    | none => pure 1
  if count = 0 then fail ("Illegal number: " ++ args.headD "")
  let count := min count (← shell).loops
  if 0 < count then
    changeShell ({ · with skip := if goesOn then .goesOn else .leaves, skipCount := count })
  return 0

/-- Leaves a function or a file of commands. -/
def returnCommand (args : List String) : Act Nat := do
  match args.head? with
  | some arg =>
    let status ← number arg
    changeShell ({ · with skip := .returns true })
    return status
  | none =>
    let s ← shell
    changeShell ({ · with skip := .returns false })
    return s.status

/-- Ends the shell. -/
def exitCommand (args : List String) : Act Nat := do
  if let some arg := args.head? then
    let status ← number arg
    changeShell ({ · with keptStatus := some status })
  throw .exits

/-- What a command of the shell itself does that runs no others. -/
def ownCommand (name : String) (args : List String) : Act Nat :=
  match name with
  | "false" => return 1
  | "echo" => do
    putBytes (echoBuiltin args)
    return 0
  | "printf" => formatCommand args
  | "test" | "[" => decideCommand name args
  | "break" => leaveLoops false args
  | "continue" => leaveLoops true args
  | "return" => returnCommand args
  | "exit" => exitCommand args
  | "set" => setCommand args
  | "shift" => shiftArguments args
  | "export" | "readonly" => markVariables name args
  | "unset" => unsetNames args
  | "local" => makeLocals args
  | "read" => do readLineInto (← Expansion.breaks) args
  | "getopts" => readOptions args
  | "cd" | "chdir" => changeDirectory args
  | "pwd" => showDirectory args
  | "alias" => aliasCommand args
  | "unalias" => unaliasCommand args
  | "type" => typeCommand args
  | "hash" => hashCommand args
  | "command" => describeCommand args
  | "jobs" => jobsCommand args
  | "fg" | "bg" => controlJob args
  | "kill" => killCommand args
  | "trap" => trapCommand args
  | "umask" => maskCommand args
  | "ulimit" => limitCommand args
  | "times" => timesCommand
  | _ => return 0

/-- Runs a command of the shell itself to its end, where its output goes out. -/
def runOwn (name : String) (act : Act Nat) : Act Unit :=
  speakingFor (some name) do
    let status ← act
    if ← flush then setStatus status
    else
      complain (name ++ ": I/O error")
      setStatus (status ||| 1)

end ContainerCommand.Shell.Act
