import ContainerCommand.Shell.Builtin.Directory
import ContainerCommand.Shell.Builtin.Variable
import ContainerCommand.Shell.Lookup
import ContainerCommand.Shell.Program
import ContainerCommand.Shell.Prompt

/-! How a shell starts, and how a process becomes another program.

A shell starts with the variables that programs see and those that every shell has. Its arguments
say which options are set and where its script comes from: an argument, a file or the input. -/
namespace ContainerCommand.Shell.Act
open Host

/-- The variables that every shell has, with the values they start with. What programs see of them may
have another value, unless it is fixed. -/
def usualVariables : List (String × String × Bool) :=
  [("IFS", " \t\n", true), ("OPTIND", "1", true), ("PATH", usualPath, false), ("PS1", "# ", false),
    ("PS2", "> ", false), ("PS4", "+ ", false)]

/-- The variables that a shell starts with; `seen` are those that programs see. -/
def startVariables (parent : Nat) (seen : Table Variable) : Table Variable :=
  let usual := usualVariables.foldl
    (fun vars (name, value, isFixed) =>
      let old := (vars.get? name).getD {}
      let value := if isFixed then value else old.value?.getD value
      vars.insert name { old with value? := some value, isPermanent := true })
    (Table.ofList ((seen.entries.filter fun (name, v) =>
      v.isExported && v.value?.isSome && isName name).map fun (name, v) =>
        (name, { value? := v.value?, isExported := true })))
  usual.insert "PPID" { ((usual.get? "PPID").getD {}) with value? := some (toString parent) }

/-- The shell that starts in the process of another one. -/
def startShell (s : Shell) (name : String) : Shell :=
  { process := s.process
    parent := s.parent
    root := s.process
    name
    vars := startVariables s.parent s.vars
    deaf := s.deaf ++ (s.traps.filter (·.2.isEmpty)).map Prod.fst
    streams := s.streams
    here := s.here
    mask := s.mask
    limits := s.limits }

/-- Finds out how the working directory has been reached, if that is known. -/
def findDirectory : Act Unit := do
  let s ← shell
  let known ← match ← value? "PWD" with
    | some path => do
      match (← disk).find (Text.widen path).toList with
      | .ok (place, _) => pure (if path.startsWith "/" && place == s.here then some path else none)
      | .error _ => pure none
    | none => pure none
  let directory ← match known with
    | some path => pure path
    | none => physicalDirectory
  changeShell ({ · with directory })
  setVariable "PWD" (some directory) true

/-- The text of a script that is read from bytes, of which those that are zero do not count. -/
def textOfScript (bytes : List UInt8) : String :=
  Text.ofBytes (bytes.filter (· != 0))

/-- The text that the input still holds. -/
def inputText : Act String := do
  let s ← get
  match s.shell.file? 0 with
  | none => return ""
  | some file =>
    let bytes := (s.world.rest file).toOption.getD []
    changeWorld (·.advance file bytes.length true)
    return textOfScript bytes

/-- The text of a script in a file. -/
def scriptText (path : String) : Act String := do
  match ← openToRead path with
  | .error fault => fail (openComplaint false path fault)
  | .ok file => return textOfScript (((← get).world.rest file).toOption.getD [])

/-- Does something; whether it has come to its end. Where somebody is asked for commands, a failure ends
only what is being done. -/
def survives (act : Act Unit) : Act Bool :=
  tryCatch (act *> pure true) fun stop => do
    if (stop = .failed || stop = .interrupted) && (← shell).options.asks then
      leaveAll false
      popFrames 0
      if stop = .interrupted then say "\n"
      return false
    else throw stop

/-- Runs the lines that a shell has been started for. What has been read with a line that fails is
lost. -/
def runMain (self : Runner) (text : String) : Act Unit :=
  iterate (fun (text : String) => do
    let run : Act Unit := do let _ ← runFile self text (ask self)
    return if ← survives run then .inr () else .inl "") stepLimit text

/-- Runs the file with which a shell starts that asks somebody for commands. -/
def runUsualFile (self : Runner) : Act Unit := do
  match ← value? "ENV" with
  | none | some "" => pure ()
  | some text =>
    if let .ok file ← openToRead (← expandPrompt (capture self) text) then
      let text := textOfScript (((← get).world.rest file).toOption.getD [])
      let _ ← runFile self text

/-- Takes note of the options with which a shell starts. One that asks for commands tries to control
jobs too, unless that is refused. -/
def startOptions (self : Runner) (settings : Settings) (options : Options) : Act Unit := do
  let isAsking := options.asks && !settings.refused.contains "monitor"
  setOptions (if isAsking then options.set true "monitor" else options)
  let _ ← flush
  if options.asks then
    let _ ← survives (runUsualFile self)

/-- Runs a shell that has just been started. -/
def runStarted (self : Runner) (args : List String) : Act Unit := do
  findDirectory
  let settings ← match Settings.ofArguments true {} args with
    | .ok settings => pure settings
    | .error fault => fail fault.message
  settings.lines.forM fun line => put (line ++ "\n")
  let options := settings.options
  let readsInput := options.has "stdin"
  match settings.rest with
  | [] =>
    if settings.hasText then fail "-c requires an argument"
    startOptions self settings (options.set true "stdin")
    runMain self (← inputText)
  | first :: rest =>
    if settings.hasText then
      changeShell fun s => { s with name := rest.headD s.name, args := rest.drop 1 }
      startOptions self settings options
      let run : Act Unit := do let _ ← runText self false first
      if !(← survives run) || readsInput then runMain self (← inputText)
    else if readsInput then
      changeShell ({ · with args := first :: rest })
      startOptions self settings options
      runMain self (← inputText)
    else
      let text ← scriptText first
      changeShell ({ · with name := first, args := rest })
      startOptions self settings options
      runMain self text

/-- Starts a shell in a process, and runs it to its end. -/
def runShell (self : Runner) (name : String) (args : List String) : Act Ended := do
  changeShell (startShell · name)
  toEnd self (runStarted self args)

/-- Makes the process run a program, whose end is that of the process; `name` is how it has been
called. -/
def become {α : Type} (self : Runner) (path : String) (name : String) (args : List String) :
    Act α := do
  match ← programAt path with
  | .error fault =>
    complain (startComplaint name fault)
    setStatus (startStatus fault)
    throw .ends
  | .ok .shell => throw (.gone (← runShell self name args))
  | .ok p => throw (.gone (.exited (← runTool p name args)))

end ContainerCommand.Shell.Act
