import ContainerCommand.Shell.Expansion

/-! Opening files, and leading streams elsewhere.

The words of redirections are expanded before anything is opened (`prepare`); then the streams
are led to where they say, one after the other (`lead`). What streams led to before is kept, so
that it comes back behind the command. The names of the streams themselves are paths too, and
open what the stream leads to once more. -/
namespace ContainerCommand.Shell.Act
open Host

/-! ### Paths -/

/-- The medium that is opened where a path has led. -/
def mediumOf (place : Location) : Entry → Medium
  | .directory => .directory
  | .file _ => .file place
  | .sink | .program _ | .stream _ => .sink
  | .full => .full

/-- The medium of a stream, if the stream is open. -/
def mediumOf? (stream : Nat) : Act (Option Medium) := do
  let s ← get
  return ((s.shell.file? stream).bind (s.world.files[·]?)).map OpenFile.medium

/-- What stands where a path leads. For the name of a stream it is what the stream leads to, unless
that has no place. -/
def find (path : String) : Act (Except Host.Fault (Location × Entry)) := do
  match (← disk).find (Text.widen path).toList with
  | .ok (place, .stream n) =>
    match ← mediumOf? n with
    | none => return .error .notFound
    | some .sink => return .ok (place, .sink)
    | some .full => return .ok (place, .full)
    | some .directory => return .ok (place, .directory)
    | some (.file place) => return .ok (place, ((← disk).at? place).getD (.file []))
    | some (.channel _) => return .ok (place, .stream n)
  | found => return found

/-- A function that finds what stands where a path leads now. -/
def finder : Act (String → Option (Location × Entry)) := do
  let s ← get
  return fun path => match (find path).run s with
    | .ok (.ok found) _ => some found
    | _ => none

/-- Opens a medium. -/
def openMedium (f : OpenFile) : Act Nat := do
  let (world, number) := (← get).world.addFile f
  changeWorld fun _ => world
  return number

/-- Opens what a path leads to, to read it. -/
def openToRead (path : String) : Act (Except Host.Fault Nat) := do
  match ← find path with
  | .error fault => return .error fault
  | .ok (_, .stream n) =>
    let medium := (← mediumOf? n).getD .sink
    return .ok (← openMedium { medium, canWrite := false })
  | .ok (place, entry) =>
    return .ok (← openMedium { medium := mediumOf place entry, canWrite := false })

/-- Opens the file that a path leads to, to write it. What is no file yet becomes one. -/
def openToWrite (way : Way) (path : String) : Act (Except Host.Fault Nat) := do
  let f (medium : Medium) : OpenFile :=
    { medium, canRead := way = .both, appends := way = .append }
  let make (place : Location) : Act Unit :=
    changeWorld fun w => { w with disk := w.disk.put place (.file []) }
  let isCareful := (← shell).options.keepsFiles && way = .write
  match ← find path, (← disk).locateTarget (Text.widen path).toList with
  | .ok (_, .stream n), _ => return .ok (← openMedium (f ((← mediumOf? n).getD .sink)))
  | .ok (_, .directory), _ => return .error .isDirectory
  | .ok (place, .file _), _ =>
    if isCareful then return .error .exists
    if way = .write || way = .replace then make place
    return .ok (← openMedium (f (.file place)))
  | .ok (place, .program _), _ =>
    make place
    return .ok (← openMedium (f (.file place)))
  | .ok (place, entry), _ => return .ok (← openMedium (f (mediumOf place entry)))
  | .error _, .ok place =>
    make place
    return .ok (← openMedium (f (.file place)))
  | .error _, .error fault => return .error fault

/-- The complaint about a file that cannot be opened, or made. -/
def openComplaint (creates : Bool) (path : String) (fault : Host.Fault) : String :=
  let reason :=
    if fault = .notFound ∨ fault = .notDirectory then
      if creates then "Directory nonexistent" else "No such file"
    else fault.reason
  (if creates then "cannot create " else "cannot open ") ++ path ++ ": " ++ reason

/-- Opens the file of a redirection. -/
def openFile (way : Way) (path : String) : Act Nat := do
  if way = .read then
    match ← openToRead path with
    | .ok file => return file
    | .error fault => fail (openComplaint false path fault)
  else
    match ← openToWrite way path with
    | .ok file => return file
    | .error fault =>
      let isCareful := (← shell).options.keepsFiles && way = .write
      fail (openComplaint (!isCareful || fault ≠ .isDirectory) path fault)

/-! ### Redirections -/

/-- Expands the words of redirections. -/
def prepare (capture : Capture) (rs : List Redirection) : Act (List (Nat × Lead)) :=
  rs.mapM fun r => match r with
    | .file stream way path => do
      return (stream, .file way (← expandText capture { startsTilde := true } path))
    | .copy stream other => return (stream, .copy other)
    | .copyNamed stream name => do
      match Grammar.streamOf? (← expandText capture { startsTilde := true } name) with
      | some other => return (stream, .copy other)
      | none =>
        changeShell fun s => { s with line := s.textLine }
        fail Fault.badStream.message
    | .passage stream number => return (stream, .passage number)

/-- Notes what a stream leads to among what is to be given back, if that has not been done. -/
def keepStream (stream : Nat) : Act Unit :=
  changeShell fun s => match s.redirected with
    | saved :: others =>
      if saved.any (·.1 == stream) then s
      else { s with redirected := ((stream, s.file? stream) :: saved) :: others }
    | [] => s

/-- Leads a stream elsewhere. A stream that is to be the same as itself stays as it is. -/
def lead (capture : Capture) (isKept : Bool) : Nat × Lead → Act Unit
  | (stream, target) => do
    if let .copy (some other) := target then
      if other = stream then return ()
    let file ← match target with
      | .file way path => some <$> openFile way path
      | .passage number => do
        let text ← expandPassage capture ((← shell).passages[number]?.getD default)
        let (world, file) := (← get).world.addText (Text.toBytes text)
        changeWorld fun _ => world
        pure (some file)
      | .copy none => pure none
      | .copy (some other) =>
        match (← shell).file? other with
        | some file => pure (some file)
        | none => fail (toString other ++ ": Bad file descriptor")
    if isKept then keepStream stream
    changeShell (·.setStream stream file)

/-- Leads streams elsewhere until the command behind them has come to its end; the status is that of
the failure, if there is one. Without redirections nothing is kept. -/
def redirect (capture : Capture) (targets : List (Nat × Lead)) : Act Nat := do
  if !targets.isEmpty then changeShell fun s => { s with redirected := [] :: s.redirected }
  try
    targets.forM (lead capture true)
    return 0
  catch stop =>
    if stop = .failed then return 2 else throw stop

end ContainerCommand.Shell.Act
