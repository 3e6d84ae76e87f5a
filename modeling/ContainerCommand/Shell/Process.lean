import ContainerCommand.Shell.Decimal
import ContainerCommand.Shell.Grammar
import ContainerCommand.Shell.Options
import ContainerCommand.Shell.World
import ContainerCommand.Table

/-! What belongs to one shell.

A shell has its own variables, functions, streams and working directory; a copy of it starts
with the same ones and changes its own. What it shares with others is in the world. -/
namespace ContainerCommand.Shell
open Host

structure Variable where
  value? : Option String := none
  /-- Whether programs see it. -/
  isExported : Bool := false
  /-- Whether it keeps its value. -/
  isConstant : Bool := false
  /-- Whether it stays known when its value is taken away. -/
  isPermanent : Bool := false
deriving DecidableEq

/-- What a command or a function gives back at its end. -/
inductive Saved where
  | variable (name : String) (before : Option Variable)
  | options (before : Options)

/-- What is passed over because loops or functions are left. -/
inductive Skip where
  | none
  /-- Loops are left. -/
  | leaves
  /-- A loop goes on with its next round. -/
  | goesOn
  /-- A function or a file of commands is left, with a status or without. -/
  | returns (hasStatus : Bool)
deriving DecidableEq

/-- How much of something a process may use, where there is a limit: as it is now, and as far as it may
be raised. -/
structure Limit where
  soft : Option Nat := none
  hard : Option Nat := none

/-- A script that runs, or has run, beside the shell. -/
structure Job where
  number : Nat
  process : Nat
  /-- How many more scripts it has, each of which reads what the one before writes. -/
  others : Nat := 0
  ended : Option Ended := none
  /-- Whether its end has been asked for. -/
  isSeen : Bool := false

/-- Where a program has been found. -/
structure Found where
  name : String
  path : String
  /-- Whether the working directory has changed since. -/
  isStale : Bool := false

/-- How far the arguments have been read as options: the number of the next one, and the place in
the one before it. -/
structure OptionPlace where
  next : Nat := 1
  offset : Option Nat := none

structure Shell where
  process : Nat := 4242
  /-- The process that has started it. -/
  parent : Nat := 4241
  /-- The number of the process that it is a copy of. -/
  root : Nat := 4242
  /-- The name that messages start with. -/
  name : String := "sh"
  args : List String := []
  vars : Table Variable := ∅
  /-- What is to be given back, the innermost first. -/
  frames : List (List Saved) := []
  functions : Table Script := ∅
  aliases : List (String × String) := []
  /-- The scripts for signals. An empty one makes the signal come to nothing. -/
  traps : List (Nat × String) := []
  /-- The signals that come to nothing whatever is done. -/
  deaf : List Nat := []
  /-- The signals that have come and whose scripts have not been run. -/
  pending : List Nat := []
  options : Options := {}
  /-- The open files of the streams. -/
  streams : List (Nat × Nat) := []
  /-- The open files that streams had before, the innermost first. -/
  redirected : List (List (Nat × Option Nat)) := []
  here : Location := []
  /-- The path of the working directory, as it has been gone. -/
  directory : String := "/"
  status : Nat := 0
  /-- The status that an end without one has, if it is not that of the last command. -/
  keptStatus : Option Nat := none
  /-- The status of the last script whose output has replaced a part of the command that runs. -/
  outputStatus : Nat := 0
  skip : Skip := .none
  /-- How many loops are to be left. -/
  skipCount : Nat := 0
  /-- How many loops the command that runs is in. -/
  loops : Nat := 0
  /-- How many functions the command that runs is in. -/
  depth : Nat := 0
  /-- The line of the command that runs. -/
  line : Nat := 0
  /-- The line up to which the script has been read. -/
  textLine : Nat := 1
  /-- Whether the end of the script has been read already. -/
  isAtEnd : Bool := false
  /-- The command that reads the script, or that the complaint is about, if there is one. -/
  speaker : Option String := none
  optionPlace : OptionPlace := {}
  mask : Nat := 18
  /-- The limits that have been set, by their letters. -/
  limits : List (Char × Limit) := []
  /-- The programs that have been found, the last first. -/
  found : List Found := []
  /-- The jobs, the last first. -/
  jobs : List Job := []
  /-- The process that was started last beside the shell. -/
  lastAside : Option Nat := none
  passages : Array Passage := #[]
  /-- What a command has written and has not gone out yet, the last first. -/
  buffer : List (List UInt8) := []
  /-- Whether a command is being shown. -/
  isShowing : Bool := false

namespace Shell

/-- The open file of a stream. -/
def file? (s : Shell) (stream : Nat) : Option Nat := s.streams.lookup stream

/-- The shell with another open file for a stream, or none. -/
def setStream (s : Shell) (stream : Nat) (file : Option Nat) : Shell :=
  let others := s.streams.filter (·.1 != stream)
  { s with streams := match file with
    | some file => (stream, file) :: others
    | none => others }

/-- Whether somebody is asked for the commands of the shell itself, and not of a copy of it. -/
def isAsking (s : Shell) : Bool := s.options.asks && s.process == s.root

/-- Whether a signal comes to nothing. -/
def ignores (s : Shell) (signal : Nat) : Bool :=
  s.deaf.contains signal || s.traps.lookup signal == some "" ||
    ((Signal.isIdle signal || s.isAsking && (signal == 3 || signal == 15)) &&
      !(s.traps.lookup signal).isSome)

/-- The shell behind signals that come, or the signal that ends it. One that is pending already does
not come a second time. -/
def receive (s : Shell) : List Nat → Except Nat Shell
  | [] => .ok s
  | signal :: rest =>
    if Signal.isFinal signal then .error signal
    else if s.ignores signal then receive s rest
    else if (s.traps.lookup signal).isSome then
      receive { s with pending := signal :: s.pending.filter (· != signal) } rest
    else .error signal

/-- The copy of a shell that runs as another process. It has no jobs, and what the shell does when
signals come is not its own. -/
def copy (s : Shell) (process : Nat) : Shell :=
  { s with
    process
    parent := s.process
    traps := s.traps.filter (·.2.isEmpty)
    pending := []
    redirected := []
    jobs := []
    buffer := [] }

/-- The number of the slot that a new job gets, and the jobs without those whose slots are free for
it. -/
def claimSlot (s : Shell) : Nat × Shell :=
  let isTaken (n : Nat) : Bool := s.jobs.any fun j =>
    j.number == n && !(j.isSeen && j.ended.isSome)
  let number := ((List.range (s.jobs.length + 1)).map (· + 1)).find? fun n => !isTaken n
  let number := number.getD 1
  (number, { s with jobs := s.jobs.filter (·.number != number) })

end Shell

/-- A process that has been started and has not run yet: a shell, where its streams are to lead, and
its script. -/
structure Waiting where
  shell : Shell
  targets : List (Nat × Lead)
  script : Script

structure State where
  world : World
  shell : Shell := {}
  /-- The processes that run beside others, in the order of their start. -/
  waiting : List Waiting := []

/-- Why a shell does not go on. -/
inductive Stop where
  /-- A command could not do what it is asked for. -/
  | failed
  /-- Somebody does not want to wait for the end of a command. -/
  | interrupted
  /-- The script asks for the end. -/
  | exits
  /-- The end follows from what a command has come to. -/
  | ends
  /-- The process is gone, and runs no script for its end. -/
  | gone (ended : Ended)
  /-- Nobody reads what the process writes. -/
  | stopped
  /-- The steps are used up. -/
  | endless
deriving DecidableEq

/-- What a shell does. -/
abbrev Act : Type → Type := EStateM Stop State

/-- Repeats a step until it gives an answer. -/
@[specialize] def Act.iterate {σ α : Type} (step : σ → Act (σ ⊕ α)) : Nat → σ → Act α
  | 0, _ => throw .endless
  | n + 1, s => do
    match ← step s with
    | .inl s => iterate step n s
    | .inr a => return a

namespace Act

/-! ### The shell and the world -/

def shell : Act Shell := return (← get).shell

def changeShell (f : Shell → Shell) : Act Unit :=
  modify fun s => { s with shell := f s.shell }

def changeWorld (f : World → World) : Act Unit :=
  modify fun s => { s with world := f s.world }

/-- The disk from where the shell is. -/
def disk : Act Disk := return { (← get).world.disk with here := (← get).shell.here }

def setStatus (status : Nat) : Act Unit :=
  changeShell ({ · with status })

/-! ### Output -/

/-- Writes bytes to a stream. -/
def write (stream : Nat) (bytes : List UInt8) : Act (Option WriteFault) := do
  let s ← get
  match s.shell.file? stream with
  | none => return some .closed
  | some file =>
    let (world, fault) := s.world.write file bytes
    set { s with world }
    if fault = some .stopped then throw .stopped
    return fault

/-- Writes a text to the messages. -/
def say (text : String) : Act Unit := do
  let _ ← write 2 (Text.toBytes text)

/-- Complains about the command that runs. -/
def complain (text : String) : Act Unit := do
  let s ← shell
  let speaker := match s.speaker with
    | some name => name ++ ": "
    | none => ""
  say (s.name ++ ": " ++ toString s.line ++ ": " ++ speaker ++ text ++ "\n")

/-- Keeps bytes that go out when the command has come to its end. -/
def putBytes (bytes : List UInt8) : Act Unit :=
  changeShell fun s => { s with buffer := bytes :: s.buffer }

def put (text : String) : Act Unit := putBytes (Text.toBytes text)

/-- Lets out what has been kept; whether it could be written. -/
def flush : Act Bool := do
  let bytes := (← shell).buffer.reverse.flatten
  changeShell ({ · with buffer := [] })
  if bytes.isEmpty then return true
  else return (← write 1 bytes).isNone

/-- Complains, and gives up what the shell is doing. -/
def fail {α : Type} (text : String) : Act α := do
  complain text
  setStatus 2
  let _ ← flush
  throw .failed

/-- Acts on behalf of a command, which complaints then name. -/
def speakingFor {α : Type} (name : Option String) (act : Act α) : Act α := do
  let before := (← shell).speaker
  changeShell ({ · with speaker := name })
  let a ← tryCatch act fun stop => do
    changeShell ({ · with speaker := before })
    throw stop
  changeShell ({ · with speaker := before })
  return a

/-! ### Variables -/

/-- The value of a variable. -/
def value? (name : String) : Act (Option String) := do
  return ((← shell).vars.get? name).bind Variable.value?

/-- Refuses what is no name. -/
def checkName (name : String) : Act Unit := do
  if !isName name then fail (name ++ ": bad variable name")

/-- The number that a text writes, which must be small and not negative. -/
def number (text : String) : Act Nat := do
  match natural? text with
  | some n => return n
  | none => fail ("Illegal number: " ++ text)

/-- What follows from the value of a variable that the shell uses itself. -/
def noteValue (name : String) (value : Option String) : Act Unit := do
  match name with
  | "OPTIND" =>
    let n ← number (value.getD "")
    changeShell ({ · with optionPlace := ⟨if n = 0 then 1 else n, none⟩ })
  | "PATH" => changeShell ({ · with found := [] })
  | _ => pure ()

/-- Gives a variable a value, or takes it away, and adds to what is known of it. Whether a name is one
is not looked at. -/
def setVariable (name : String) (value : Option String) (isExported isConstant : Bool := false)
    (isQuiet : Bool := false) : Act Unit := do
  let s ← shell
  let before := (s.vars.get? name).getD {}
  if before.isConstant then fail (name ++ ": is read only")
  if !isQuiet then noteValue name value
  let v : Variable := {
    value? := value
    isExported := isExported || s.options.exportsAll || before.isExported
    isConstant
    isPermanent := before.isPermanent }
  let isGone := value.isNone && !isExported && !isConstant && !before.isPermanent &&
    !s.options.exportsAll
  changeShell fun s => { s with
    vars := if isGone then s.vars.erase name else s.vars.insert name v }

/-- Gives a value to a variable with a good name. -/
def assign (name value : String) : Act Unit := do
  checkName name
  setVariable name (some value)

/-- Takes the value of a variable away. -/
def unassign (name : String) : Act Unit := do
  checkName name
  setVariable name none

/-- A text parted at its first equals sign. -/
def splitAssignment (text : String) : String × Option String :=
  match text.toList.dropWhile (· != '=') with
  | [] => (text, none)
  | _ :: value =>
    (String.ofList (text.toList.takeWhile (· != '=')), some (String.ofList value))

/-- Makes a variable belong to the innermost frame, and gives it the value that may stand behind its
name. -/
def makeLocal (text : String) (isExported : Bool) : Act Unit := do
  let s ← shell
  let (name, value) := splitAssignment text
  let note (saved : Saved) : Act Unit := changeShell fun s => { s with
    frames := match s.frames with
      | frame :: frames => (saved :: frame) :: frames
      | [] => [] }
  if text == "-" then note (.options s.options)
  else
    match s.vars.get? name with
    | none =>
      if value.isNone then checkName name
      setVariable name value isExported
      changeShell fun s => { s with
        vars := s.vars.insert name
          { (s.vars.get? name).getD { value? := value, isExported } with isPermanent := true } }
      note (.variable name none)
    | some before =>
      changeShell fun s => { s with
        vars := s.vars.insert name { before with isPermanent := true } }
      if value.isSome then setVariable name value isExported
      note (.variable name (some before))

/-- Gives back what the innermost frame has saved. -/
def popFrame : Act Unit := do
  match (← shell).frames with
  | [] => pure ()
  | frame :: frames =>
    changeShell ({ · with frames })
    for saved in frame do
      match saved with
      | .options before => changeShell ({ · with options := before })
      | .variable name none =>
        changeShell fun s => { s with
          vars := s.vars.insert name { ((s.vars.get? name).getD {}) with
            isConstant := false, isPermanent := false } }
        unassign (String.ofList (name.toList.takeWhile (· != '=')))
      | .variable name (some before) =>
        changeShell fun s => { s with vars := s.vars.insert name before }
        noteQuietly name before
where
  /-- What follows from a value that comes back. -/
  noteQuietly (name : String) (before : Variable) : Act Unit := do
    if name == "OPTIND" || name == "PATH" then noteValue name before.value?

/-- Gives back frames until as many as before are left. -/
def popFrames (depth : Nat) : Act Unit :=
  iterate (fun (_ : Unit) => do
    if depth < (← shell).frames.length then
      popFrame
      return .inl ()
    else return .inr ()) stepLimit ()

/-! ### Redirected streams -/

/-- Gives back the streams of the innermost redirections, or keeps the new ones. -/
def popStreams (isKept : Bool) : Act Unit :=
  changeShell fun s =>
    match s.redirected with
    | [] => s
    | saved :: redirected =>
      let s := { s with redirected }
      if isKept then s
      else saved.foldl (fun s (stream, file) => s.setStream stream file) s

/-- Gives back streams until as many redirections as before are left. -/
def popAllStreams (depth : Nat) : Act Unit := do
  for _ in List.range ((← shell).redirected.length - depth) do popStreams false

end Act

end ContainerCommand.Shell
