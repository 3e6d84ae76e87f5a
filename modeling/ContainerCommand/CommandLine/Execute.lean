import ContainerCommand.Command.Report
import ContainerCommand.CommandLine.Description
import ContainerCommand.Json.Printer
import ContainerCommand.Invocation.Programs
import ContainerCommand.Task.Builtin
import ContainerCommand.TaskFile.Storage

/-! Doing what a command line asks for.

The answer is a code and what is written to both streams. The code tells who is to
blame: nobody (0), what was asked for (1), the words of the command line (2), or the
program that was run (3). Who runs a program is a parameter, an invoker for each limit of
the output that is kept; the program itself (`answer`) has that of the disk. -/
namespace ContainerCommand.CommandLine
open Host

structure Answer where
  code : Nat
  stdout : List UInt8 := []
  stderr : List UInt8 := []
deriving DecidableEq

namespace Answer

/-- An answer to be read. -/
def said (text : String) : Answer :=
  { code := 0, stdout := Text.encode text }

def failed (failure : Failure) : Answer :=
  { code := 1, stderr := Text.encode (failure.message ++ "\n") }

/-- The answer to words that are no request. -/
def refused : Refusal → Answer
  | .version => said versionText
  | .help topic => said (help topic)
  | .helpOnHelp => said helpOnHelp
  | .misuse verb => { code := 2, stderr := Text.encode (usage verb) }

/-- What the program that was run wrote, with words about how much is missing. -/
def completed (completion : Completion) : Answer :=
  let missing (stream : String) (dropped : Nat) : String :=
    if dropped = 0 then ""
    else "[" ++ stream ++ " truncated " ++ toString dropped ++ " bytes]\n"
  let log := match completion.log with
    | some path => "output written to " ++ path ++ "\n"
    | none => ""
  { code := 0
    stdout := completion.stdout
    stderr := completion.stderr ++
      Text.encode (missing "stdout" completion.stdoutDropped ++
        missing "stderr" completion.stderrDropped ++ log) }

/-- What the program that was run wrote before it failed, with words about that. -/
def broken (run : Execution) : Answer :=
  let ending := match run.exitCode with
    | some code => "exited with code " ++ Value.intText code
    | none => "terminated by signal"
  { code := 3
    stdout := run.stdout
    stderr := run.stderr ++ Text.encode ("container command " ++ ending ++ "\n") }

/-- The answer to a task that has been run. -/
def ofRun : Outcome Completion → Answer
  | .ok completion => completed completion
  | .error failure =>
    match failure.cause with
    | .execution run => broken run
    | _ => failed failure

/-- The answer that says a text, or why there is none. -/
def ofText : Outcome String → Answer
  | .ok text => said text
  | .error failure => failed failure

end Answer

/-- Writes the standard configuration, unless there is one that must stay. -/
def init (path : String) (isForced : Bool) : StateM Disk Answer := fun disk =>
  if !isForced && disk.exists? path.toList then
    (.said (path ++ " exists (use --force to overwrite)\n"), disk)
  else
    match Config.save {} {} path disk with
    | (.ok (), disk) => (.said ("wrote " ++ path ++ "\n"), disk)
    | (.error failure, disk) =>
      (.failed { failure with context := ("write " ++ path) :: failure.context }, disk)

/-- The table of a task type. -/
def describe (registry : Registry) (name : String) : Outcome String := do
  let task ← Outcome.ofOption (.unknownTask name) (registry.get? name)
  let merged ← (Outcome.ofCompile (task.merged registry.base)).during
    ("merge task '" ++ name ++ "'")
  return task.describe merged

/-- The command of a task file, as a text or a document. -/
def compile (registry : Registry) (disk : Disk) (config path : String) (asJson : Bool) :
    Outcome String := do
  let config ← Config.load disk config
  let compiled ← TaskFile.compileAt disk path config registry
  return (if asJson then Json.pretty "" compiled.toDocument else compiled.command.cmdline) ++ "\n"

/-- Has the command of a task file run on the disk. -/
def run (invoker : Nat → Invoker Disk) (registry : Registry) (config path : String) :
    StateM Disk Answer := fun disk =>
  let read : Outcome (Config × TaskFile) := do
    let config ← Config.load disk config
    return (config, ← TaskFile.load disk path)
  match read with
  | .error failure => (.failed failure, disk)
  | .ok (config, file) =>
    let (outcome, disk) :=
      file.run config registry (TaskFile.isOn disk) (invoker config.outputLimit) disk
    (.ofRun (outcome.map Prod.snd), disk)

/-- Does what a request asks for. -/
def execute (invoker : Nat → Invoker Disk) (registry : Registry) (request : Request) :
    StateM Disk Answer := fun disk =>
  match request.action with
  | .init isForced => init request.config isForced disk
  | .tasks => (.said (String.join (registry.tasks.map TaskType.listed)), disk)
  | .describe name => (.ofText (describe registry name), disk)
  | .compile path asJson => (.ofText (compile registry disk request.config path asJson), disk)
  | .run path => run invoker registry request.config path disk

/-- Does what the words of a command line ask for. -/
def answerWith (invoker : Nat → Invoker Disk) (words : List String) : StateM Disk Answer :=
  match read words with
  | .ok request => execute invoker .builtin request
  | .error refusal => pure (.refused refusal)

/-- Does what the words of a command line ask for, with the programs of the disk. -/
def answer (words : List String) : StateM Disk Answer :=
  answerWith Invocation.invoke words

end ContainerCommand.CommandLine
