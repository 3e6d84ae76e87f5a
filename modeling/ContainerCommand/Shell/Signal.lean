/-! Signals: their names, and what they do to a process that does not expect them. -/
namespace ContainerCommand.Shell.Signal

/-- The end of a process, where it is treated like a signal. -/
def ending : Nat := 0

/-- The number behind the last signal. -/
def limit : Nat := 65

/-- The signals with names of their own, and what is said of a process that dies of one. -/
def table : List (Nat × String × String) :=
  [(1, "HUP", "Hangup"), (2, "INT", ""), (3, "QUIT", "Quit"), (4, "ILL", "Illegal instruction"),
    (5, "TRAP", "Trace/breakpoint trap"), (6, "ABRT", "Aborted"), (7, "BUS", "Bus error"),
    (8, "FPE", "Floating point exception"), (9, "KILL", "Killed"),
    (10, "USR1", "User defined signal 1"), (11, "SEGV", "Segmentation fault"),
    (12, "USR2", "User defined signal 2"), (13, "PIPE", ""), (14, "ALRM", "Alarm clock"),
    (15, "TERM", "Terminated"), (16, "16", "Stack fault"), (17, "CHLD", ""), (18, "CONT", ""),
    (19, "STOP", ""), (20, "TSTP", ""), (21, "TTIN", ""), (22, "TTOU", ""), (23, "URG", ""),
    (24, "XCPU", "CPU time limit exceeded"), (25, "XFSZ", "File size limit exceeded"),
    (26, "VTALRM", "Virtual timer expired"), (27, "PROF", "Profiling timer expired"),
    (28, "WINCH", ""), (29, "IO", "I/O possible"), (30, "PWR", "Power failure"),
    (31, "SYS", "Bad system call"), (34, "RTMIN", "Real-time signal 0"),
    (64, "RTMAX", "Real-time signal 30")]

/-- The name of a signal. -/
def name (n : Nat) : String :=
  match table.lookup n with
  | some (name, _) => name
  | none =>
    if 34 < n ∧ n < 50 then "RTMIN+" ++ toString (n - 34)
    else if 50 ≤ n ∧ n < 64 then "RTMAX-" ++ toString (64 - n)
    else toString n

/-- What is said of a process that has died of a signal. -/
def message (n : Nat) : String :=
  match table.lookup n with
  | some (_, text) => text
  | none =>
    if 34 < n then "Real-time signal " ++ toString (n - 34) else "Unknown signal " ++ toString n

/-- The signal of a number or a name, in letters of either case; the end of a process has a name too
where it counts. -/
def ofText? (countsEnding : Bool) (text : String) : Option Nat :=
  if !text.isEmpty && text.toList.all Char.isDigit then text.toNat?.filter (· < limit)
  else
    let text := text.toUpper
    if countsEnding && text == "EXIT" then some ending
    else ((List.range limit).drop 1).find? fun n => name n == text

/-- Whether a process that does not expect a signal goes on as if it had not come. -/
def isIdle (n : Nat) : Bool :=
  n == ending || (17 ≤ n && n ≤ 23) || n == 28

/-- Whether a signal always has its effect. -/
def isFinal (n : Nat) : Bool :=
  n == 9

end ContainerCommand.Shell.Signal
