import ContainerCommand.Host.Disk
import ContainerCommand.Invocation.Capture
import ContainerCommand.Task.Run

/-! Invoking a command as a process.

The program gets its arguments as they are, and nothing to read. Its output is kept up to
a limit, or goes to a file that is made before the program starts. A process that does
not end with code 0 is a failure, which carries what was kept. What a program does is a
parameter (`Starter`). -/
namespace ContainerCommand.Invocation
open Host

/-- What a process leaves behind. -/
structure Trace where
  disk : Disk
  /-- The exit code, unless a signal has ended the process. -/
  exitCode : Option Int
  stdout : List UInt8
  stderr : List UInt8

/-- How a host starts a program by its name, with its arguments, and waits for its end. Both streams of
the process lead to a file if one is given. -/
abbrev Starter : Type :=
  Disk → String → List String → Option Location → Except Fault Trace

/-- Starts a program and waits for its end. -/
def spawn (start : Starter) (disk : Disk) (program : String) (args : List String)
    (log : Option Location) : Outcome Trace :=
  let isWhole (arg : String) : Bool := !arg.contains '\x00'
  let started :=
    if (program :: args).all isWhole then Outcome.ofHost (start disk program args log)
    else Outcome.fail .nulInArgument
  started.during "spawn command"

/-- Makes the file that receives the output, and the directories above it. -/
def makeLog (path : String) (disk : Disk) : Outcome (Option Location) × Disk :=
  let parent := (Path.parent? path.toList).getD []
  let made := if parent.isEmpty then (none, disk) else disk.makeDirectories {} parent
  match made with
  | (some fault, disk) =>
    ((Outcome.fail (.host fault)).during ("create log dir " ++ String.ofList parent), disk)
  | (none, disk) =>
    match disk.write {} path.toList [] with
    | (some fault, disk) =>
      ((Outcome.fail (.host fault)).during ("create log file " ++ path), disk)
    | (none, disk) => (.ok (disk.locate path.toList).toOption, disk)

/-- What a process that has ended amounts to. -/
def judge (exitCode : Option Int) (stdout stderr : Capture) (log : Option String) :
    Outcome Completion :=
  if exitCode = some 0 then .ok ⟨0, stdout.kept, stderr.kept, stdout.dropped, stderr.dropped, log⟩
  else Outcome.fail (.execution ⟨exitCode, stdout.kept, stderr.kept⟩)

/-- Runs invocations on a disk whose programs are started in some way, and keeps at most `limit` bytes of
each stream. -/
def invokeWith (start : Starter) (limit : Nat) : Invoker Disk := fun invocation disk =>
  match invocation.argv with
  | [] => (Outcome.fail .emptyCommand, disk)
  | program :: args =>
    let (log, disk) : Outcome (Option Location) × Disk := match invocation.redirect with
      | none => (.ok none, disk)
      | some path => makeLog path disk
    match Outcome.during ("run " ++ program) (log.bind (spawn start disk program args)) with
    | .error failure => (.error failure, disk)
    | .ok trace =>
      -- Nothing is captured of what leads to a file.
      let captured (stream : List UInt8) : Capture :=
        Capture.ofStream limit (if invocation.redirect.isSome then [] else stream)
      (judge trace.exitCode (captured trace.stdout) (captured trace.stderr) invocation.redirect,
        trace.disk)

end ContainerCommand.Invocation
