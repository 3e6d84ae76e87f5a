import ContainerCommand.Shell.Builtin.Argument

/-! Jobs: the scripts that run beside the shell.

A job is known by the number of its slot behind a percent sign, or by that of its process. The
one that has been started last is the current one, the one before it the previous one. -/
namespace ContainerCommand.Shell

/-- The slot that a text behind a percent sign names. -/
def slot? (text : String) : Option Nat := digits? text

/-- How a job is doing. -/
def Job.text (j : Job) : String :=
  match j.ended with
  | none => "Running"
  | some (.exited 0) => "Done"
  | some (.exited code) => "Done(" ++ toString code ++ ")"
  | some (.killed signal) => Signal.message signal

namespace Act

/-- The job that a text names, without one the current one. None can be controlled. -/
def job (name : Option String) (wantsControl : Bool) : Act Job := do
  let jobs := (← shell).jobs
  let text := (name.getD "%").toList
  let given (found : Option Job) (complaint : String) : Act Job :=
    match found with
    | some j => pure j
    | none => fail complaint
  let unknown := "No such job: " ++ name.getD ""
  let j ← match text with
    | ['%'] | ['%', '+'] | ['%', '%'] => given jobs.head? "No current job"
    | ['%', '-'] => given jobs[1]? "No previous job"
    | ['%', '?'] =>
      if 1 < jobs.length then fail (name.getD "" ++ ": ambiguous") else given jobs.head? unknown
    | '%' :: rest =>
      let number := slot? (String.ofList rest)
      given (jobs.find? fun j => some j.number == number) unknown
    | _ => fail unknown
  if wantsControl then
    fail ("job " ++ name.getD "(null)" ++ " not created under job control")
  return j

/-- Shows a job. One that has ended is forgotten then. -/
def showJob (j : Job) (letter : Option Char) : Act Unit := do
  if letter == some 'p' then put (toString j.process ++ "\n")
  else
    let jobs := (← shell).jobs
    let mark := if jobs.head?.any (·.number == j.number) then "+"
      else if (jobs[1]?.any (·.number == j.number)) then "-" else " "
    let process := if letter == some 'l' then toString j.process ++ " " else ""
    let line := "[" ++ toString j.number ++ "] " ++ mark ++ " " ++ process ++ j.text
    let gap := max 1 (33 - line.length)
    put (line ++ String.ofList (List.replicate gap ' ') ++
      String.join (List.replicate j.others " | ") ++ "\n")
    if j.ended.isSome then
      changeShell fun s => { s with jobs := s.jobs.filter (·.number != j.number) }

/-- Shows jobs. -/
def jobsCommand (args : List String) : Act Nat := do
  let c ← choose "lp" args
  if c.rest.isEmpty then
    for j in (← shell).jobs do showJob j c.last?
  else
    for name in c.rest do showJob (← job name false) c.last?
  return 0

/-- Refuses to control a job. -/
def controlJob (args : List String) : Act Nat := do
  let _ ← job (← withoutOptions args).head? true
  return 0

/-- Takes note of an end that has been asked for. -/
def noteSeen (isMeant : Job → Bool) : Act Unit :=
  changeShell fun s => { s with
    jobs := s.jobs.map fun j => if isMeant j then { j with isSeen := true } else j }

/-- The status behind signals that have broken off the waiting, if any have. -/
def brokenOff? : Act (Option Nat) := do
  return ((← shell).pending.find? (· != 17)).map (128 + ·)

/-- Waits for jobs; `settle` waits until no script runs beside the shell any more, above all for that
of a process. -/
def waitCommand (settle : Option Nat → Act Unit) (args : List String) : Act Nat := do
  match ← withoutOptions args with
  | [] =>
    if (← shell).jobs.any (·.ended.isNone) then settle none
    match ← brokenOff? with
    | some status => return status
    | none =>
      noteSeen fun _ => true
      return 0
  | names =>
    let mut status := 127
    for name in names do
      let meant ← if name.startsWith "%" then some <$> job name false
        else do
          let process ← number name
          pure ((← shell).jobs.find? (·.process == process))
      if let some j := meant then
        if j.ended.isNone then settle (some j.process)
        if let some broken := ← brokenOff? then return broken
        noteSeen (·.number == j.number)
        if let some ended := ((← shell).jobs.find? (·.number == j.number)).bind Job.ended then
          status := ended.status
    return status

end Act

end ContainerCommand.Shell
