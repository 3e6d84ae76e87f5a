import ContainerCommand.Shell.Builtin.Argument
import ContainerCommand.Shell.Opening

/-! The working directory.

It is known by the path along which it has been reached, in which two dots take the name before
them away (`goAlong`). Options ask for where it is on the disk instead. -/
namespace ContainerCommand.Shell.Act
open Host

/-- Takes the turns out of the names of a path. -/
def turn (names : List String) (part : String) : List String :=
  if part == "." || part == "" then names
  else if part == ".." then names.dropLast
  else names ++ [part]

/-- The path that is reached from a directory along another path. Two slashes at its start are kept,
but not three. -/
def goAlong (directory path : String) : String :=
  let isWhole := path.startsWith "/"
  let origin := if isWhole then path else directory
  let isDouble := origin.startsWith "//" && !origin.startsWith "///"
  let names := if isWhole then [] else (directory.splitOn "/").foldl turn []
  let names := (path.splitOn "/").foldl turn names
  (if isDouble then "//" else "/") ++ "/".intercalate names

/-- The path of the working directory on the disk. -/
def physicalDirectory : Act String := do
  return "/" ++ "/".intercalate ((← shell).here.map Text.narrow)

/-- Whether the disk is asked for a path, and the other arguments. -/
def choosePhysical (args : List String) : Act (Bool × List String) := do
  let c ← choose "LP" args
  return (c.last? == some 'P', c.rest)

/-- Takes note of a new working directory. -/
def noteDirectory (before path : String) : Act Unit := do
  setVariable "OLDPWD" (some before) true
  changeShell fun s => { s with
    directory := path, found := s.found.map ({ · with isStale := true }) }
  setVariable "PWD" (some path) true

/-- Goes to a directory, if there is one. -/
def enterDirectory (isPhysical : Bool) (path : String) : Act Bool := do
  let before := (← shell).directory
  let target := if isPhysical then path else goAlong before path
  match (← disk).find (Text.widen target).toList with
  | .ok (place, .directory) =>
    changeShell ({ · with here := place })
    let reached ← if isPhysical then physicalDirectory else pure target
    noteDirectory before reached
    return true
  | _ => return false

/-- Whether a path starts at the root or with a turn. -/
def isAnchored (path : String) : Bool :=
  path.startsWith "/" || ["." , ".."].contains ((path.splitOn "/").headD "")

/-- The directories of a list in which a path is one, each with whether the list names it. -/
def listed (directories path : String) : List (String × Bool) :=
  (directories.splitOn ":").map fun d =>
    if d.isEmpty then (path, false) else (d ++ "/" ++ path, true)

/-- Changes the working directory. It is shown if it does not follow from the argument. -/
def changeDirectory (args : List String) : Act Nat := do
  let (isPhysical, args) ← choosePhysical args
  let isBack := args.head? == some "-"
  let path ← match args.head? with
    | some "-" => (·.getD "") <$> value? "OLDPWD"
    | some path => pure path
    | none => (·.getD "") <$> value? "HOME"
  let name := if path.isEmpty then "." else path
  let isDirectory (p : String) : Act Bool := return (← find p) matches .ok (_, .directory)
  let directories ← value? "CDPATH"
  let candidates := if isAnchored path then [] else (directories.map (listed · name)).getD []
  let known ← candidates.filterM fun (p, _) => isDirectory p
  let (target, isListed) := known.headD (name, false)
  if !(← enterDirectory isPhysical target) then fail ("can't cd to " ++ name)
  if isBack || isListed then put ((← shell).directory ++ "\n")
  return 0

/-- Shows the working directory. -/
def showDirectory (args : List String) : Act Nat := do
  let (isPhysical, _) ← choosePhysical args
  if isPhysical then
    setVariable "PWD" (some (← shell).directory) true
    put ((← physicalDirectory) ++ "\n")
  else put ((← shell).directory ++ "\n")
  return 0

end ContainerCommand.Shell.Act
