import ContainerCommand.Invocation.Run
import ContainerCommand.Shell.Run

/-! The programs of a disk, as far as there are any.

A host runs what it likes. The few programs that a disk can hold (`Host.Program`) are acted out here, so
that commands can be invoked on a disk alone. -/
namespace ContainerCommand.Invocation
open Host

/-- The variables that a process sees. -/
def environment : Table Shell.Variable :=
  Table.ofList ([("HOME", "/root"), ("PATH", "/usr/local/bin:/usr/bin:/bin")].map
    fun (name, value) => (name, { value? := some value, isExported := true }))

/-- The code that a process has ended with. -/
def exitCode? : Shell.Ended → Option Int
  | .exited code => some code
  | .killed _ => none

/-- Runs a program that has been called by a name to its end; both its streams lead to a file if one
is given. -/
def runProgram (disk : Disk) (p : Program) (name : String) (args : List String)
    (log : Option Location) : Trace :=
  let world : Shell.World := { disk }
  let (world, input) := world.addFile { medium := .sink }
  let (world, out) := world.addChannel {}
  let (world, err) := world.addChannel {}
  let open? (channel : Nat) : Shell.OpenFile := match log with
    | none => { medium := .channel channel, canRead := false }
    | some place =>
      let medium := match disk.at? place with
        | some .sink => .sink
        | some .full => .full
        | _ => .file place
      { medium, canRead := false }
  let (world, first) := world.addFile (open? out)
  let (world, second) := if log.isSome then (world, first) else world.addFile (open? err)
  let s : Shell.Shell := {
    name := Text.narrow name
    vars := environment
    streams := [(0, input), (1, first), (2, second)]
    here := disk.here }
  let (ended, world) := Shell.runProgram world s p (args.map Text.narrow)
  let content (channel : Nat) : List UInt8 := (world.channels[channel]?.getD {}).content
  { disk := { world.disk with here := disk.here }
    exitCode := exitCode? ended
    stdout := content out
    stderr := content err }

/-- Starts the program that a disk has under a name. -/
def startProgram : Starter := fun disk name args log => do
  let p ← if name.isEmpty then .error .notFound else disk.findProgram name
  return runProgram disk p name args log

/-- Runs invocations on a disk with its own programs. -/
def invoke (limit : Nat) : Invoker Disk :=
  invokeWith startProgram limit

end ContainerCommand.Invocation
