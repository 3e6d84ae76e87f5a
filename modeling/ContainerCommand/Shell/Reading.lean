import ContainerCommand.Shell.Process

/-! Running a script line by line.

A line is read when the one before it has been run, since that may have changed what it means.
Scripts come from texts (`runText`) or from files (`runFile`), of which the lines can be shown
as they are read. For the lines of the file that a shell has been started for, somebody may be
asked (`Audience`). Scripts for signals are run between commands (`runPending`). -/
namespace ContainerCommand.Shell

/-- Where a script stands. -/
structure Position where
  /-- Whether its status is looked at, so that a failure does not end the shell. -/
  isTested : Bool := false
  /-- Whether the process ends behind it. -/
  isLast : Bool := false

/-- Runs a script and gives its status. -/
abbrev Runner : Type := Position → Script → Act Nat

/-- Who sees the lines of a script, and gives them. -/
structure Audience where
  /-- Whether they can be shown. -/
  isShown : Bool := false
  /-- How somebody is asked for the next command, or for more of one, if that is done at all. -/
  ask? : Option (Bool → Act Unit) := none

namespace Source

/-- The lines that have been touched on the way from a source to another one. -/
def touched (before after : Source) : List Char :=
  let all := before.left
  let own := all.take (all.length - after.left.length)
  if own.isEmpty || own.getLast? == some '\n' then own
  else
    let rest := after.left
    own ++ rest.takeWhile (· != '\n') ++ (if rest.contains '\n' then ['\n'] else [])

end Source

namespace Act

/-- Shows the lines that have been touched, and asks for more of them where that was due. -/
def showTouched (audience : Audience) (before after : Source) : Act Unit := do
  let isVerbose := audience.isShown && (← shell).options.has "verbose"
  let showPart (text : List Char) : Act Unit := do
    if isVerbose then say (String.ofList text)
  let rest ← after.asked.foldrM (fun left rest => do
    let part := rest.length - left
    showPart (rest.take part)
    audience.ask?.forM (· true)
    return rest.drop part) (before.left)
  let shown := before.left.length - rest.length
  showPart ((before.touched after).drop shown)

/-- Reads the next line of a source. -/
def readNext (audience : Audience) (source : Source) : Act (Option Script × Source) := do
  let isAsked := (← shell).options.asks && audience.ask?.isSome
  if isAsked then audience.ask?.forM (· false)
  let s ← shell
  let note (next : Source) : Act Unit := do
    changeShell ({ · with
      passages := next.passages, textLine := next.line, isAtEnd := next.endsPutBack })
    showTouched audience source next
  match readLine.run { source with aliases := s.aliases, passages := s.passages, isAsked } with
  | .ok script next =>
    note next
    return (script, next)
  | .error fault next =>
    note next
    if fault = .endless then throw .endless
    changeShell ({ · with line := next.line })
    fail fault.message

/-- How often the end of the input does not count, where it need not. -/
def endLimit : Nat := 50

/-- Whether reading goes on behind the end of a script that has been met some times before. -/
def goesOnBehind (audience : Audience) (ends : Nat) : Act Bool := do
  let options := (← shell).options
  if audience.ask?.isNone || endLimit ≤ ends then return false
  else if options.has "ignoreeof" then
    say "\nUse \"exit\" to leave shell.\n"
    return true
  else
    if options.asks then say "\n"
    return false

/-- Runs the lines of a source up to its end, or until something is left; the status is that of the
last command. -/
def runLines (self : Runner) (position : Position) (audience : Audience) (text : String) : Act Nat := do
  let before := (← shell).textLine
  let run : Act Nat := iterate (fun (source, status, ends) => do
    match ← readNext audience source with
    | (none, source) =>
      return if ← goesOnBehind audience ends then .inl (source, status, ends + 1) else .inr status
    | (some script, source) =>
      let own ← self position script
      let status := if script.isNothing then status else own
      if (← shell).skip = .none then return .inl (source, status, 0)
      else return .inr status) stepLimit (({ text := text.toList } : Source), 0, 0)
  let status ← tryCatch run fun stop => do
    changeShell ({ · with textLine := before })
    throw stop
  changeShell ({ · with textLine := before })
  return status

/-- Runs a text. -/
def runText (self : Runner) (isTested : Bool) (text : String) : Act Nat :=
  runLines self { isTested } {} text

/-- Runs the text of a file, which can be left like a function. -/
def runFile (self : Runner) (text : String) (ask? : Option (Bool → Act Unit) := none) :
    Act Nat := do
  let status ← runLines self {} { isShown := true, ask? } text
  changeShell fun s => { s with skip := if s.skip matches .returns _ then .none else s.skip }
  return status

/-- Runs the scripts of the signals that have come. The status stays as it was, unless such a script
leaves a function with another one. When something is left the other signals have to wait. -/
def runPending (self : Runner) : Act Unit := do
  let s ← shell
  if s.pending.isEmpty then return ()
  let status := s.keptStatus.getD s.status
  changeShell ({ · with keptStatus := some status, pending := [] })
  for signal in s.pending.mergeSort do
    if (← shell).skip = .none then
      if let some action := (← shell).traps.lookup signal then
        let _ ← runText self false action
        if (← shell).skip != .returns true then setStatus status
    else
      changeShell fun s => { s with pending := signal :: s.pending.filter (· != signal) }
  changeShell ({ · with keptStatus := s.keptStatus })

end Act

end ContainerCommand.Shell
