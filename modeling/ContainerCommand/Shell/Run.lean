import ContainerCommand.Shell.Command

/-! Running scripts.

A script is run by a step (`runScript`) that leaves the scripts in it to a runner of the same kind;
`run` ties the two together, for scripts that are not nested too deep. Before and behind every
script the scripts for signals are run that have come. A failure that nobody looks at ends the
shell, if an option asks for that. -/
namespace ContainerCommand.Shell
open Act Host

namespace Act

/-- What becomes of loops when something is left: what is left still, if this loop does not go on. -/
def leaveLoop : Act Skip := do
  let s ← shell
  match s.skip with
  | .leaves | .goesOn =>
    let count := s.skipCount - 1
    changeShell ({ · with skipCount := count })
    if count = 0 then
      changeShell ({ · with skip := .none })
      return s.skip
    else return .leaves
  | skip => return skip

/-- Runs rounds of a loop, and gives the status of the last one. -/
def runLoop (self : Runner) (position : Position) (isUntil : Bool) (condition body : Script) :
    Act Nat :=
  iterate (fun (status : Nat) => do
    let tested ← self { isTested := true } condition
    match ← leaveLoop with
    | .goesOn => return .inl status
    | .leaves => return .inr status
    | .returns hasStatus => return .inr (if hasStatus then tested else status)
    | .none =>
      if (tested == 0) == isUntil then return .inr status
      let status ← self position body
      match ← leaveLoop with
      | .none | .goesOn => return .inl status
      | _ => return .inr status) stepLimit 0

/-- Runs one round for each value, and gives the status of the last one. -/
def runEach (self : Runner) (position : Position) (name : String) (body : Script) :
    Nat → List String → Act Nat
  | status, [] => return status
  | _, value :: rest => do
    assign name value
    let status ← self position body
    match ← leaveLoop with
    | .none | .goesOn => runEach self position name body status rest
    | _ => return status

/-- Runs something in one loop more. -/
def inLoop (act : Act Nat) : Act Nat := do
  changeShell fun s => { s with loops := s.loops + 1 }
  let status ← act
  changeShell fun s => { s with loops := s.loops - 1 }
  return status

/-- The script behind the first pattern that a text matches. -/
def findCase (capture : Capture) (text : String) :
    List (List Word × Script) → Act (Option Script)
  | [] => return none
  | (patterns, body) :: rest => do
    let isMeant ← patterns.anyM fun w => do
      return (← expandPattern capture w).accepts text.toList
    if isMeant then return some body else findCase capture text rest

/-- Runs a script in a copy of the shell; in the shell itself, if that has nothing else to do. -/
def runEnclosed (self : Runner) (position : Position) (line : Nat) (body : Script)
    (redirections : List Redirection) : Act Nat := do
  changeShell ({ · with line })
  let targets ← prepare (capture self) redirections
  let act : Act Unit := do
    targets.forM (lead (capture self) false)
    let _ ← self { position with isLast := true } body
  let hasScripts := (← shell).traps.any fun t => !t.2.isEmpty
  if position.isLast && !hasScripts then
    act
    throw .ends
  else runApart self act

/-- Runs the parts of a script, and gives its status and whether a failure may end the shell. -/
def runParts (self : Runner) (position : Position) : Script → Act (Nat × Bool)
  | .nothing => return (0, false)
  | .simple line words assignments redirections =>
    return (← settled (runSimple self position line words assignments redirections), true)
  | .piped scripts => return (← settled (runJoined self position scripts), true)
  | .apart line body redirections =>
    return (← settled (runEnclosed self position line body redirections), true)
  | .aside line body redirections => do
    changeShell ({ · with line })
    let targets ← prepare (capture self) redirections
    startAside targets body
    setStatus 0
    return (0, true)
  | .redirected line body redirections => do
    changeShell ({ · with line })
    let targets ← prepare (capture self) redirections
    let failure ← redirect (capture self) targets
    let status ← if failure != 0 then pure failure else self tested body
    if !redirections.isEmpty then popStreams false
    setStatus status
    return (status, failure != 0)
  | .negated body => do
    let status ← self { isTested := true } body
    return (← settled (return if status = 0 then 1 else 0), false)
  | .both first second => do
    let status ← self { isTested := true } first
    if status != 0 || (← isLeaving) then return (status, false)
    else return (← settled (self position second), false)
  | .either first second => do
    let status ← self { isTested := true } first
    if status = 0 || (← isLeaving) then return (status, false)
    else return (← settled (self position second), false)
  | .sequence first second => do
    let status ← self tested first
    if ← isLeaving then return (status, false)
    else return (← settled (self position second), false)
  | .choice condition first second => do
    let status ← self { isTested := true } condition
    if ← isLeaving then return (status, false)
    else if status = 0 then return (← settled (self position first), false)
    else if second.isNothing then return (← settled (return 0), false)
    else return (← settled (self position second), false)
  | .loop isUntil condition body =>
    return (← settled (inLoop (runLoop self tested isUntil condition body)), false)
  | .each line name values body => do
    changeShell ({ · with line })
    let fields ← values.flatMapM (expandFields (capture self))
    return (← settled (inLoop (runEach self tested name body 0 fields)), false)
  | .select line subject cases => do
    changeShell ({ · with line })
    let text ← expandText (capture self) { startsTilde := true } subject
    let body := ((← findCase (capture self) text cases)).getD .nothing
    let status ← if body.isNothing || (← isLeaving) then pure 0 else self position body
    return (← settled (return status), false)
  | .define name body => do
    changeShell fun s => { s with functions := s.functions.insert name body }
    return (← settled (return 0), false)
where
  /-- The position of a part that others follow. -/
  tested : Position := { isTested := position.isTested }
  isLeaving : Act Bool := return (← shell).skip != .none
  /-- Makes a status that of the last command. -/
  settled (act : Act Nat) : Act Nat := do
    let status ← act
    setStatus status
    return status

/-- Runs a script, leaving those in it to another runner. -/
def runScript (self : Runner) : Runner := fun position script => do
  runPending self
  let (status, checks) ← if (← shell).options.onlyReads then pure (0, false)
    else runParts self position script
  runPending self
  if checks && status != 0 && !position.isTested && (← shell).options.exitsOnFailure then
    throw .ends
  if position.isLast then throw .ends
  return status

end Act

/-- Runs a script that is not nested too deep. -/
def run : Nat → Runner
  | 0 => fun _ _ => throw .endless
  | depth + 1 => fun position script => runScript (run depth) position script

/-- Runs a program as a process, with all that it leaves behind beside it: how it has ended, and the
world behind it. A process that cannot come to its end counts as killed. -/
def runProgram (world : World) (s : Shell) (p : Program) (args : List String) : Ended × World :=
  let self := run stepLimit
  let act : Act Ended := do
    let ended ← match p with
      | .shell => runShell self s.name args
      | p => .exited <$> runTool p s.name args
    changeWorld (·.dropProcess s.process)
    settleFor self none
    return ended
  match act.run { world, shell := s } with
  | .ok ended after => (ended, after.world)
  | .error _ after => (.killed 9, after.world)

end ContainerCommand.Shell
