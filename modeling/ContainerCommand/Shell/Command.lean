import ContainerCommand.Shell.Builtin
import ContainerCommand.Shell.Start

/-! Simple commands.

The words of a command are expanded first, and say what it is (`Command.ofWords`). Then the
streams are led to where the redirections say, and the variables get their values, which they
keep only if a special command of the shell follows, or nothing. What is left of all that is
taken back behind the command, unless the shell itself comes to its end with it. -/
namespace ContainerCommand.Shell
open Act

/-- What a command is, so far as its words say. -/
structure Command where
  /-- All that the words have become. -/
  shown : List String := []
  /-- The name of the command that runs, and its arguments. -/
  fields : List String := []
  /-- Whether functions are passed over. -/
  skipsFunctions : Bool := false
  /-- Where programs are looked for instead of the usual places. -/
  path : Option String := none
  /-- Whether the first name is that of a command of the shell itself, and whether of a special one. -/
  isSpecial : Option Bool := none
  /-- Whether arguments may assign. -/
  assigns : Bool := false

namespace Command

/-- Whether the shell comes to its end if a special command fails. -/
def isDemanding (c : Command) : Bool := c.isSpecial == some true

/-- Whether what is assigned is taken back. -/
def isLocal (c : Command) : Bool := !c.fields.isEmpty && !c.isDemanding

/-- The name of the command of the shell itself that runs, if it is one. -/
def ownName? (c : Command) : Act (Option String) := do
  match c.fields with
  | [] => return none
  | name :: _ =>
    let isFunction := !c.skipsFunctions && ((← shell).functions.get? name).isSome
    return if isOwnCommand name && !isFunction then some name else none

/-- Whether what it does to streams stays. -/
def keepsStreams (c : Command) : Bool := c.fields.head? == some "exec"

/-! ### Words -/

/-- Expands words until there is a field, and adds it. -/
def fill (capture : Capture) (c : Command) : List Word → Act (Command × List Word)
  | [] => return (c, [])
  | w :: ws => do
    match ← expandFields capture w with
    | [] => fill capture c ws
    | fields => return ({ c with shown := c.shown ++ fields, fields := c.fields ++ fields }, ws)

/-- Reads the options of `command`, whose name stands first. What is left is the command that it runs,
nothing if it runs none. -/
def readOptions (capture : Capture) :
    Nat → List String → Command → List Word → Act (Option Command × Command × List Word)
  | 0, _, c, ws => return (none, c, ws)
  | steps + 1, passed, c, ws => do
    let isFull := passed.length + 1 < c.fields.length
    let (c, ws) ← if isFull then pure (c, ws) else fill capture c ws
    match c.fields.drop (passed.length + 1) with
    | [] => return (none, c, ws)
    | arg :: rest =>
      match arg.toList with
      | ['-', '-'] =>
        let (c, ws) ← if rest.isEmpty then fill capture c ws else pure (c, ws)
        match c.fields.drop (passed.length + 2) with
        | [] => return (none, c, ws)
        | fields => return (some { c with fields, skipsFunctions := true }, c, ws)
      | '-' :: 'p' :: letters =>
        if letters.all (· == 'p') then
          readOptions capture steps (arg :: passed) { c with path := some usualPath } ws
        else return (none, c, ws)
      | '-' :: _ :: _ => return (none, c, ws)
      | _ => return (some { c with fields := arg :: rest, skipsFunctions := true }, c, ws)

/-- Finds out what a command is that has its first field. -/
def recognise (capture : Capture) : Nat → Command → List Word → Act (Command × List Word)
  | 0, c, ws => return (c, ws)
  | steps + 1, c, ws => do
    match ← c.ownName? with
    | none => return (c, ws)
    | some name =>
      let c := { c with
        assigns := assigningCommands.contains name
        isSpecial := some (c.isSpecial.getD (isSpecialCommand name)) }
      if name != "command" then return (c, ws)
      match ← readOptions capture (ws.length + c.fields.length + 1) [] c ws with
      | (some c, _, ws) => recognise capture steps c ws
      | (none, c, ws) => return (c, ws)

/-- The command that words make. -/
def ofWords (capture : Capture) (ws : List Word) : Act Command := do
  let (c, ws) ← fill capture {} ws
  if c.fields.isEmpty then return c
  let (c, ws) ← recognise capture (ws.length + c.fields.length) c ws
  let fields ← ws.flatMapM fun w =>
    if c.assigns && Word.isAssignment w then do
      return [← expandText capture { startsTilde := false, assigns := true } w]
    else expandFields capture w
  return { c with shown := c.shown ++ fields, fields := c.fields ++ fields }

end Command

namespace Act

/-! ### Showing commands -/

/-- Shows a command before it runs, where messages went before it. -/
def trace (capture : Capture) (texts : List String) : Act Unit := do
  let s ← shell
  if s.options.traces && !s.isShowing then
    changeShell ({ · with isShowing := true })
    let lead ← expandPrompt capture ((← value? "PS4").getD "")
    changeShell ({ · with isShowing := false })
    let file := match s.redirected with
      | saved :: _ => ((saved.lookup 2).join).orElse fun _ => s.file? 2
      | [] => s.file? 2
    if let some file := file then
      let (world, _) := (← get).world.write file
        (Text.toBytes (lead ++ " ".intercalate texts ++ "\n"))
      changeWorld fun _ => world

/-! ### Running -/

/-- The number of functions that may be called one in another. -/
def depthLimit : Nat := 1000

/-- Calls a function. It has its own arguments, and loops around it are not its own. -/
def callFunction (self : Runner) (position : Position) (body : Script) (args : List String) :
    Act Unit := do
  let before ← shell
  changeShell ({ · with depth := before.depth + 1 })
  if depthLimit ≤ before.depth then
    fail ("Maximum function recursion depth (" ++ toString depthLimit ++ ") reached")
  let giveBack : Act Unit := changeShell fun s => { s with
    args := before.args
    optionPlace := before.optionPlace
    loops := before.loops
    depth := s.depth - 1
    skip := if s.skip matches .returns _ then .none else s.skip }
  changeShell ({ · with args, optionPlace := {}, loops := 0 })
  let call : Act Unit := do let _ ← self { isTested := position.isTested } body
  tryCatch call fun stop => do
    giveBack
    throw stop
  giveBack

/-- Reads a file of commands, and runs them. -/
def includeFile (self : Runner) (args : List String) : Act Nat := do
  match ← withoutOptions args with
  | [] => return 0
  | name :: _ =>
    let path ← if name.contains '/' then pure name
      else do
        let directories := ((← value? "PATH").getD "").splitOn ":"
        let paths := directories.map fun d => if d.isEmpty then name else d ++ "/" ++ name
        match ← paths.findM? fun p => return (← find p) matches .ok (_, .file _) with
        | some p => pure p
        | none => fail (name ++ ": not found")
    let text ← scriptText path
    speakingFor (some path) (runFile self text)

/-- Runs a command of the shell itself. -/
def callOwn (self : Runner) (position : Position) (name : String) (args : List String) :
    Act Nat :=
  match name with
  | "eval" => runText self position.isTested (" ".intercalate args)
  | "." => includeFile self args
  | "exec" =>
    match args with
    | [] => return 0
    | program :: args => do
      settleFor self none
      let path ← if program.contains '/' then pure (.ok program)
        else searchIn ((← value? "PATH").getD "") program
      match path with
      | .ok path => become self path program args
      | .error fault =>
        complain (startComplaint program fault)
        setStatus (startStatus fault)
        throw .ends
  | "wait" => waitCommand (settleFor self) args
  | "command" => describeCommand args
  | name => ownCommand name args

/-- Runs a program, which takes the place of the shell if nothing is to be done behind it. -/
def callProgram (self : Runner) (position : Position) (path name : String) (args : List String) :
    Act Unit := do
  let hasScripts := (← shell).traps.any fun t => !t.2.isEmpty
  if position.isLast && !hasScripts then
    settleFor self none
    become self path name args
  else setStatus (← runApart self (become self path name args))

/-- Runs a command whose streams and variables are ready. -/
def call (self : Runner) (position : Position) (c : Command) : Act Unit := do
  match c.fields, ← c.ownName? with
  | [], _ => changeShell fun s => { s with status := s.outputStatus }
  | _ :: args, some name =>
    let run := runOwn name (callOwn self position name args)
    tryCatch run fun stop =>
      if stop = .failed && !c.isDemanding then pure () else throw stop
  | name :: args, none =>
    let functions := (← shell).functions
    match if c.skipsFunctions then none else functions.get? name with
    | some body => callFunction self position body args
    | none =>
      match ← locate c.path name with
      | .ok path => callProgram self position path name args
      | .error fault =>
        complain (startComplaint name fault)
        setStatus 127

/-- Gives variables their values; they come back behind the command if it is one that asks for that. -/
def assignAll (capture : Capture) (c : Command) (assignments : List Word) : Act (List String) :=
  assignments.mapM fun w => do
    let text ← expandText capture { assigns := true } w
    if c.isLocal then makeLocal text true
    else
      let (name, value) := splitAssignment text
      setVariable name value (c.keepsStreams && 1 < c.fields.length)
    return text

/-- Runs a simple command. -/
def runSimple (self : Runner) (position : Position) (line : Nat) (words assignments : List Word)
    (redirections : List Redirection) : Act Nat := do
  changeShell ({ · with line, outputStatus := 0 })
  let s ← shell
  let capture := capture self
  let c ← Command.ofWords capture words
  if c.isLocal then changeShell fun s => { s with frames := [] :: s.frames }
  let targets ← prepare capture redirections
  let failure ← redirect capture targets
  if failure != 0 then
    setStatus failure
    if c.isDemanding then throw .failed
  else
    let assigned ← assignAll capture c assignments
    trace capture (assigned ++ c.shown)
    call self position c
  let status := (← shell).status
  if !redirections.isEmpty then popStreams c.keepsStreams
  popAllStreams s.redirected.length
  popFrames s.frames.length
  return status

end Act

end ContainerCommand.Shell
