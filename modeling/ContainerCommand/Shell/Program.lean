import ContainerCommand.Shell.Concatenate
import ContainerCommand.Shell.Format
import ContainerCommand.Shell.Opening

/-! The programs that a shell may start, but for the shell itself.

A program has the streams of the process that runs it. What it has to say of its work goes out
before the work itself. -/
namespace ContainerCommand.Shell.Act
open Host

/-- Writes the output of a program and its complaints. -/
def putProgram (name : String) (written : Written) : Act Nat := do
  written.complaints.forM fun text => say (text ++ "\n")
  if written.bytes.isEmpty then return written.status
  match ← write 1 written.bytes with
  | none => return written.status
  | some fault =>
    say (name ++ ": write error: " ++ fault.reason ++ "\n")
    return 1

/-- Whether the bytes that an open file still gives are in the file that the output goes to. -/
def isOwnOutput (file : Nat) : Act Bool := do
  let s ← get
  match s.world.files[file]?, (s.shell.file? 1).bind (s.world.files[·]?) with
  | some input, some output =>
    match input.medium with
    | .file place =>
      return output.medium = .file place && input.offset < (s.world.contentAt place).length
    | _ => return false
  | _, _ => return false

/-- The bytes of what a path leads to, or of the input where it is a dash. -/
def readFor (path : String) : Act (Except String (List UInt8)) := do
  let file ← if path == "-" then
      pure (((← shell).file? 0).elim (.error ReadFault.closed.reason) .ok)
    else (·.mapError Fault.reason) <$> openToRead path
  match file with
  | .error reason => return .error reason
  | .ok file =>
    if ← isOwnOutput file then return .error "input file is output file"
    else
      match (← get).world.rest file with
      | .error fault => return .error fault.reason
      | .ok bytes =>
        changeWorld (·.advance file bytes.length true)
        return .ok bytes

/-- Writes files one after the other; the status is that of the worst. -/
def concatenate (name : String) (d : Concatenate.Display) :
    Concatenate.Progress → List String → Nat → Act Nat
  | _, [], status => return status
  | p, path :: rest, status => do
    match ← readFor path with
    | .ok bytes =>
      let (shown, p) := d.output p bytes
      let written ← putProgram name { bytes := shown }
      if written = 0 then concatenate name d p rest status else return written
    | .error reason =>
      say (name ++ ": " ++ shellWord [':'] path ++ ": " ++ reason ++ "\n")
      concatenate name d p rest 1

/-- Runs `cat`. -/
def runConcatenate (name : String) (args : List String) : Act Nat := do
  match Concatenate.readArguments {} args with
  | .error fault =>
    say (name ++ ": " ++ fault.message ++ "\n")
    say ("Try '" ++ name ++ " --help' for more information.\n")
    return 1
  | .ok (d, paths) =>
    let s ← shell
    if (s.file? 1).isNone then
      say (name ++ ": standard output: Bad file descriptor\n")
      return 1
    let paths := if paths.isEmpty then ["-"] else paths
    let status ← concatenate name d {} paths 0
    if paths.contains "-" && (s.file? 0).isNone then
      say (name ++ ": closing standard input: Bad file descriptor\n")
      return 1
    return status

/-- Runs a program that is no shell; `name` is how it has been called. -/
def runTool (p : Program) (name : String) (args : List String) : Act Nat :=
  match p with
  | .echo => putProgram name { bytes := echoProgram args }
  | .printf => putProgram name (printf (.program name) args)
  | .cat => runConcatenate name args
  | .succeed | .shell => return 0
  | .fail => return 1

end ContainerCommand.Shell.Act
