import ContainerCommand.Shell.Builtin.Signal
import ContainerCommand.Shell.Opening
import ContainerCommand.Shell.Reading

/-! Processes that a shell starts.

A process runs to its end before the shell goes on, in the same world. One that is to run beside
the shell has to wait until the shell itself waits for a process, or has come to its end
(`settle`). Scripts that read what others write run after them: a writer may be stopped until it
is known how much is read, and runs once more if that is not enough (`runPiped`). -/
namespace ContainerCommand.Shell.Act

/-! ### Signals -/

/-- Takes the signals that have come for the shell, and others. -/
def takeSignals (others : List Nat) : Act Unit := do
  let s ← get
  let own := s.world.signals.filter (·.2 == s.shell.process)
  changeWorld fun w => { w with signals := w.signals.filter (·.2 != s.shell.process) }
  receive (others ++ own.map Prod.fst)

/-- Says of what signal a process has died, where that is said. -/
def sayEnded : Ended → Act Unit
  | .exited _ => pure ()
  | .killed signal => do
    let text := Signal.message signal
    if !text.isEmpty then say (text ++ "\n")

/-! ### The end of a shell -/

/-- Leaves all loops, functions and redirections. Where the script asks for the end, or has come to it
as if it had, the status is the one that has been kept. -/
def leaveAll (asksEnd : Bool) : Act Unit := do
  changeShell fun s => { s with
    status := if asksEnd || s.skip = .returns false then s.keptStatus.getD s.status else s.status
    keptStatus := none
    skip := .none
    loops := 0 }
  popAllStreams 0

/-- Whether a shell comes to its end in good order. -/
def isOrderly (stop : Stop) : Bool :=
  stop = .failed || stop = .interrupted || stop = .exits || stop = .ends

/-- Does something that may stop the shell in good order, and gives the reason if it has. -/
def untilStop (act : Act Unit) : Act (Option Stop) :=
  tryCatch (act *> pure none) fun stop => if isOrderly stop then pure (some stop) else throw stop

/-- Runs the script for the end of the shell, and gives the last status. -/
def finish (self : Runner) (stop : Option Stop) : Act Nat := do
  if stop.isSome then leaveAll (stop = some .exits)
  let s ← shell
  changeShell fun s => { s with keptStatus := some s.status }
  match s.traps.lookup Signal.ending with
  | none => leaveAll true
  | some action =>
    changeShell fun s => { s with
      traps := s.traps.filter (·.1 != Signal.ending), skip := .none }
    let last ← untilStop do
      let _ ← runText self false action
      changeShell ({ · with skip := .returns false })
    leaveAll ((last <|> stop) = some .exits)
  return (← shell).status % 256

/-- Runs a shell to its end. -/
def toEnd (self : Runner) (act : Act Unit) : Act Ended :=
  tryCatch (return .exited (← finish self (← untilStop act))) fun stop =>
    match stop with
    | .gone ended => pure ended
    | stop => throw stop

/-! ### Scripts that run beside the shell -/

/-- Runs a shell as a process of its own, which is gone behind it. -/
def runProcess (child : Shell) (act : Act Ended) : Act Ended := do
  let s ← get
  match act.run { world := s.world, shell := child } with
  | .ok ended after =>
    set { s with world := after.world.dropProcess child.process }
    return ended
  | .error stop after =>
    set { s with world := after.world.dropProcess child.process }
    throw stop

/-- Runs the scripts that wait; `run` runs one to its end. What becomes of the one with a given
process is said. -/
def settleWith (run : Waiting → Act Ended) (target : Option Nat) : Act Unit :=
  iterate (fun (_ : Unit) => do
    match (← get).waiting with
    | [] => return .inr ()
    | w :: rest =>
      modify ({ · with waiting := rest })
      let process := w.shell.process
      let ended ← run w
      changeShell fun s => { s with jobs := s.jobs.map fun j =>
        if j.process == process then { j with ended := some ended } else j }
      if target = some process then sayEnded ended
      takeSignals [17]
      return .inl ()) stepLimit ()

/-- Runs something as a process that has been started, with all that it leaves behind beside it. -/
def runChild (self : Runner) (settle : Act Unit) (child : Shell) (act : Act Unit) : Act Ended :=
  runProcess child do
    let ended ← toEnd self do
      takeSignals []
      act
    changeWorld (·.dropProcess child.process)
    settle
    return ended

/-- The number of a process that is started now, and the copy of the shell that runs in it. -/
def startCopy : Act Shell := do
  let s ← get
  let (world, process) := s.world.addProcess
  set { s with world }
  return s.shell.copy process

/-- Runs a process that the shell waits for; what it dies of may be said. -/
def runAwaited (self : Runner) (settle : Act Unit) (isSaid : Bool) (change : Shell → Shell)
    (act : Act Unit) : Act Ended := do
  let child ← startCopy
  let ended ← runChild self settle (change child) act
  if isSaid then sayEnded ended
  takeSignals [17]
  return ended

/-! ### Scripts that read what others write -/

/-- How many bytes may be written before somebody reads. -/
def pipeRoom : Nat := 65536

/-- Adds a channel, and open files for both its ends. -/
def openChannel (room : Option Nat) : Act (Nat × Nat × Nat) := do
  let (world, c) := (← get).world.addChannel { room }
  let (world, source) := world.addFile { medium := .channel c, canWrite := false }
  let (world, target) := world.addFile { medium := .channel c, canRead := false }
  changeWorld fun _ => world
  return (c, source, target)

/-- Makes what has been written to a channel ready to be read. -/
def turnChannel (c : Nat) : Act Unit :=
  changeWorld fun w => { w with channels := w.channels.modify c fun channel =>
    { channel with unread := channel.content } }

/-- Runs scripts each of which reads what the one before writes, and gives the end of the last one.
A writer that is stopped for want of room counts as ended, unless its reader misses something:
then all is done once more with more room. -/
def runPiped (run : Option Nat → Option Nat → Script → Act Ended) :
    Nat → Option Nat → List Script → Act Ended
  | _, _, [] => return .exited 0
  | _, input, [last] => run input none last
  | 0, _, _ => throw .endless
  | steps + 1, input, first :: rest => do
    let before ← get
    let attempt (room : Nat) : Act (Option Ended) := do
      set before
      let (c, source, target) ← openChannel (some room)
      let isCut : Act Bool := return ((← get).world.channels[c]?.getD {}).isCut
      try
        let _ ← run input (some target) first
      catch stop =>
        if !(stop = .stopped && (← isCut)) then throw stop
      turnChannel c
      let ended ← runPiped run steps (some source) rest
      return if ((← get).world.channels[c]?.getD {}).isShort then none else some ended
    iterate (fun (room : Nat) => do
      match ← attempt room with
      | some ended => return .inr ended
      | none => return .inl (16 * room)) 8 pipeRoom

/-- Runs scripts that are joined by bars, in copies of the shell. -/
def runPipe (self : Runner) (settle : Act Unit) (isSaid : Bool) (position : Position)
    (scripts : List Script) : Act Ended :=
  let run (input output : Option Nat) (script : Script) : Act Ended :=
    let lead (stream : Nat) (file : Option Nat) (s : Shell) : Shell :=
      if file.isSome then s.setStream stream file else s
    runAwaited self settle isSaid (lead 0 input ∘ lead 1 output) do
      let _ ← self { position with isLast := true } script
  runPiped run scripts.length none scripts

/-- Runs a script in a copy of the shell and gives what it writes. -/
def captureWith (self : Runner) (settle : Act Unit) (script : Script) : Act String := do
  if script.isNothing then return ""
  settle
  changeShell fun s => s.claimSlot.2
  let (c, _, target) ← openChannel none
  let ended ← runAwaited self settle true (·.setStream 1 (some target)) do
    let _ ← self { isLast := true } script
  changeShell ({ · with outputStatus := ended.status })
  let bytes := ((← get).world.channels[c]?.getD {}).content
  return Text.ofBytes (bytes.filter (· != 0))

/-! ### Scripts that have waited -/

/-- What a process does that has waited. -/
def runWaiting (self : Runner) : Nat → Waiting → Act Ended
  | 0 => fun _ => throw .endless
  | depth + 1 => fun w =>
    let settle := settleWith (runWaiting self depth) none
    runChild self settle w.shell do
      w.targets.forM (lead (captureWith self settle) false)
      match w.script with
      | .piped scripts => throw (.gone (← runPipe self settle false {} scripts))
      | script =>
        let _ ← self { isLast := true } script

/-- Runs all scripts that wait. -/
def settleFor (self : Runner) (target : Option Nat) : Act Unit :=
  settleWith (runWaiting self stepLimit) target

/-! ### Starting -/

/-- Gets ready to wait for a process: scripts that have been started before run first, and the slot of
a job that is over is given away. -/
def prepareWait (self : Runner) : Act Unit := do
  settleFor self none
  changeShell fun s => s.claimSlot.2

/-- Runs something in a copy of the shell, waits for its end and gives its status. -/
def runApart (self : Runner) (act : Act Unit) : Act Nat := do
  prepareWait self
  return (← runAwaited self (settleFor self none) true id act).status

/-- Runs scripts that are joined by bars, and gives the status of the last one. -/
def runJoined (self : Runner) (position : Position) (scripts : List Script) : Act Nat := do
  prepareWait self
  return (← runPipe self (settleFor self none) true position scripts).status

/-- Runs a script in a copy of the shell and gives what it writes. -/
def capture (self : Runner) : Capture := captureWith self (settleFor self none)

/-- Starts a script beside the shell. Nobody interrupts it, and it has nothing to read. -/
def startAside (targets : List (Nat × Lead)) (script : Script) : Act Unit := do
  let child ← startCopy
  let process := child.process
  let (world, sink) := (← get).world.addFile { medium := .sink }
  changeWorld fun _ => world
  let child := { child with deaf := 2 :: 3 :: child.deaf }.setStream 0 (some sink)
  let others := match script with
    | .piped scripts => scripts.length - 1
    | _ => 0
  changeShell fun s =>
    let (number, s) := s.claimSlot
    { s with jobs := { number, process, others } :: s.jobs, lastAside := some process }
  modify fun s => { s with waiting := s.waiting ++ [⟨child, targets, script⟩] }

end ContainerCommand.Shell.Act
