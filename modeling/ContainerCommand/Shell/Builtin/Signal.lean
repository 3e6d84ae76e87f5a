import ContainerCommand.Shell.Builtin.Job
import ContainerCommand.Shell.Quote

/-! Sending signals, and what is done when they come. -/
namespace ContainerCommand.Shell.Act

/-- Lets signals come to the shell itself. An interruption of a shell that asks for commands makes it
ask for the next one. -/
def receive (signals : List Nat) : Act Unit := do
  let s ← shell
  match s.receive signals with
  | .ok s => changeShell fun _ => s
  | .error signal =>
    if signal = 2 && s.isAsking then
      setStatus (Ended.killed signal).status
      throw .interrupted
    else throw (.gone (.killed signal))

/-- Sends a signal to a process; whether there is one. Zero stands for all of them, and no signal for
the question. -/
def sendTo (signal process : Nat) : Act Bool := do
  let s ← get
  let own := s.shell.process
  let others := s.world.processes.filter fun p =>
    p != own && (if process = 0 then 4242 ≤ p else p == process)
  if signal != 0 then
    changeWorld fun w => { w with signals := w.signals ++ others.map (signal, ·) }
    if process = 0 || process == own then receive [signal]
  return process = 0 || process == own || !others.isEmpty

/-- Sends a signal to the processes and jobs that some arguments name. -/
def sendSignal (signal : Nat) (targets : List String) : Act Nat := do
  let mut status := 0
  for target in targets do
    let isThere ← if target.startsWith "%" then do
        let _ ← job target false
        pure false
      else if target.startsWith "-" then do
        let _ ← number (String.ofList (target.toList.drop 1))
        pure false
      else sendTo signal (← number target)
    if !isThere then
      complain "No such process\n"
      status := 1
  return status

def killUsage : Act Nat :=
  fail "Usage: kill [-s sigspec | -signum | -sigspec] [pid | job]... or\nkill -l [exitstatus]"

/-- Names all signals, or the one that has ended a process. -/
def listSignals : List String → Act Nat
  | [] => do
    put "0\n"
    for n in (List.range Signal.limit).drop 1 do put (Signal.name n ++ "\n")
    return 0
  | word :: _ => do
    let n ← number word
    let n := if 128 < n then n - 128 else n
    if n = 0 || Signal.limit ≤ n then fail ("invalid signal number or exit status: " ++ word)
    put (Signal.name n ++ "\n")
    return 0

/-- Sends signals, or names them. -/
def killCommand (args : List String) : Act Nat := do
  let send (signal : Nat) (targets : List String) : Act Nat :=
    if targets.isEmpty then killUsage else sendSignal signal targets
  let first := (args.headD "").toList
  if args.isEmpty then killUsage
  else if first.head? != some '-' then send 15 args
  else
    match Signal.ofText? false (String.ofList (first.drop 1)) with
    | some signal => send signal (args.drop 1)
    | none =>
      let c ← choose "ls:" args
      let mut signal? : Option Nat := none
      for (letter, text) in c.options do
        if letter == 's' then
          match Signal.ofText? false text with
          | some n => signal? := some n
          | none => fail ("invalid signal number or name: " ++ text)
      if !c.has 'l' then send (signal?.getD 15) c.rest
      else if signal?.isSome && !c.rest.isEmpty then killUsage
      else listSignals c.rest

/-- Sets the scripts of signals, or takes them away. -/
def setTraps (action : Option String) : List String → Act Nat
  | [] => return 0
  | word :: rest => do
    match Signal.ofText? true word with
    | none =>
      say ("trap: " ++ word ++ ": bad trap\n")
      return 1
    | some n =>
      changeShell fun s =>
        let others := s.traps.filter (·.1 != n)
        { s with traps := match action with
          | some text => (n, text) :: others
          | none => others }
      setTraps action rest

/-- Lists the scripts for signals. -/
def listTraps : Act Nat := do
  let traps := (← shell).traps
  for n in List.range Signal.limit do
    if let some text := traps.lookup n then
      put ("trap -- " ++ singleQuoted text ++ " " ++
        (if n = Signal.ending then "EXIT" else Signal.name n) ++ "\n")
  return 0

/-- Says what is done when signals come. A number in front, or nothing behind the first argument,
takes scripts away. -/
def trapCommand (args : List String) : Act Nat := do
  match ← withoutOptions args with
  | [] => listTraps
  | first :: rest =>
    let isSignal := (Signal.ofText? false first).isSome && first.toList.all Char.isDigit
    if rest.isEmpty || isSignal then setTraps none (first :: rest)
    else setTraps (if first == "-" then none else some first) rest

end ContainerCommand.Shell.Act
