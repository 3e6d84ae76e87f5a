import ContainerCommand.Shell.Builtin.Alias
import ContainerCommand.Shell.Opening

/-! What the name of a command means.

A name is a function, a command of the shell itself, or that of a program that stands in one of
the directories of a list. Where a program has been found is remembered until the list changes;
after a change of the working directory it is looked for once more. -/
namespace ContainerCommand.Shell
open Host

/-- The commands of the shell itself that a script goes on without, should they fail. -/
def plainCommands : List String :=
  ["[", "alias", "bg", "cd", "chdir", "command", "echo", "false", "fg", "getopts", "hash", "jobs",
    "kill", "printf", "pwd", "read", "test", "true", "type", "ulimit", "umask", "unalias", "wait"]

/-- The commands whose arguments may assign. -/
def assigningCommands : List String := ["alias", "export", "local", "readonly"]

def isSpecialCommand (name : String) : Bool := Grammar.specialCommands.contains name

def isOwnCommand (name : String) : Bool := isSpecialCommand name || plainCommands.contains name

/-- The directories with the usual programs. -/
def usualPath : String := "/usr/local/sbin:/usr/local/bin:/usr/sbin:/usr/bin:/sbin:/bin"

namespace Act

/-! ### Programs -/

/-- What is said of a program that cannot be started. -/
def startComplaint (name : String) (fault : Host.Fault) : String :=
  name ++ ": " ++
    if fault = .notFound ∨ fault = .notDirectory then "not found" else fault.reason

/-- The status for a program that cannot be started. -/
def startStatus (fault : Host.Fault) : Nat :=
  if fault = .notFound ∨ fault = .notDirectory ∨ fault = .nameTooLong then 127 else 126

/-- The program at a path. -/
def programAt (path : String) : Act (Except Host.Fault Program) := do
  match ← find path with
  | .ok (_, .program p) => return .ok p
  | .ok _ => return .error .notPermitted
  | .error fault => return .error fault

/-- Looks for a program in the directories of a list. What else has its name in one of them is the
reason why there is none. -/
def searchIn (path name : String) : Act (Except Host.Fault String) :=
  (path.splitOn ":").foldlM
    (fun found directory => do
      match found with
      | .ok p => return .ok p
      | .error fault =>
        let p := if directory.isEmpty then name else directory ++ "/" ++ name
        match ← programAt p with
        | .ok _ => return .ok p
        | .error .notFound | .error .notDirectory => return .error fault
        | .error fault => return .error fault)
    (.error .notFound)

/-- The program that a name leads to, which is a path itself if there is a slash in it. -/
def locate (path : Option String) (name : String) : Act (Except Host.Fault String) := do
  if name.contains '/' then return .ok name
  match path with
  | some path => searchIn path name
  | none =>
    match (← shell).found.find? (·.name == name) with
    | some ⟨_, p, false⟩ => return .ok p
    | _ =>
      let found ← searchIn ((← value? "PATH").getD "") name
      changeShell fun s =>
        let others := s.found.filter (·.name != name)
        { s with found := match found with
          | .ok p => others ++ [⟨name, p, false⟩]
          | .error _ => others }
      return found

/-! ### Descriptions -/

/-- Says what a name means, or gives the shortest text that does; the status says whether it means
anything. -/
def describe (isShort : Bool) (path : Option String) (name : String) : Act Nat := do
  let tell (text : String) : Act Nat := do
    put ((if isShort then name else name ++ text) ++ "\n")
    return 0
  let s ← shell
  if Token.keywords.contains name then tell " is a shell keyword"
  else if let some text := s.aliases.lookup name then
    put (if isShort then "alias " ++ aliasLine name text
      else name ++ " is an alias for " ++ text ++ "\n")
    return 0
  else if (s.functions.get? name).isSome then tell " is a shell function"
  else if isSpecialCommand name then tell " is a special shell builtin"
  else if isOwnCommand name then tell " is a shell builtin"
  else
    let tracked := if path.isNone then s.found.find? (·.name == name) else none
    let found ← match tracked with
      | some f => pure (.ok f.path)
      | none =>
        if name.contains '/' then (·.map fun _ => name) <$> find name else locate path name
    match found with
    | .ok p =>
      let how := if tracked.isSome then " is a tracked alias for " else " is "
      put ((if isShort then "" else name ++ how) ++ p ++ "\n")
      return 0
    | .error _ =>
      if !isShort then put (name ++ ": not found\n")
      return 127

/-- Says what names mean. -/
def typeCommand (args : List String) : Act Nat := do
  let mut status := 0
  for name in args do
    status := status ||| (← describe false none name)
  return status

/-- What is left of `command` when it runs nothing: it says what a name means. -/
def describeCommand (args : List String) : Act Nat := do
  let c ← choose "pvV" args
  match c.rest with
  | name :: _ =>
    if c.has 'v' || c.has 'V' then
      describe (!c.has 'V') (if c.has 'p' then some usualPath else none) name
    else return 0
  | [] => return 0

/-- Lists where programs have been found, or looks for some. -/
def hashCommand (args : List String) : Act Nat := do
  let c ← choose "r" args
  if c.has 'r' then
    changeShell ({ · with found := [] })
    return 0
  if c.rest.isEmpty then
    for f in byBucket 31 Found.name (← shell).found do
      put (f.path ++ (if f.isStale then "*" else "") ++ "\n")
    return 0
  let mut status := 0
  for name in c.rest do
    changeShell fun s => { s with found := s.found.filter (·.name != name) }
    if !isOwnCommand name && ((← shell).functions.get? name).isNone then
      match ← locate none name with
      | .ok _ => pure ()
      | .error fault =>
        complain (startComplaint name fault)
        status := 1
  return status

end Act

end ContainerCommand.Shell
