import ContainerCommand.Shell.Builtin.Argument
import ContainerCommand.Shell.Quote

/-! Aliases.

They are listed by the number of a bucket that follows from their names, and within a bucket in
the order in which they have been made. -/
namespace ContainerCommand.Shell

/-- The bucket of a name among some. -/
def bucketOf (count : Nat) (name : String) : Nat :=
  let cs := name.toList.map Char.toNat
  (16 * cs.headD 0 + cs.foldl (· + ·) 0) % count

/-- Entries in the order of the buckets of their names. -/
def byBucket {α : Type} (count : Nat) (name : α → String) (entries : List α) : List α :=
  entries.mergeSort fun a b => decide (bucketOf count (name a) ≤ bucketOf count (name b))

namespace Act

def aliasLine (name text : String) : String :=
  name ++ "=" ++ singleQuoted text ++ "\n"

/-- Makes aliases, or lists them. -/
def aliasCommand (args : List String) : Act Nat := do
  if args.isEmpty then
    for (name, text) in byBucket 39 Prod.fst (← shell).aliases do
      put (aliasLine name text)
    return 0
  let mut status := 0
  for arg in args do
    let aliases := (← shell).aliases
    match splitAssignment (String.ofList (arg.toList.drop 1)), aliases.lookup arg with
    | (_, none), none =>
      say ("alias: " ++ arg ++ " not found\n")
      status := 1
    | (_, none), some text => put (aliasLine arg text)
    | (rest, some text), _ =>
      let name := String.ofList (arg.toList.take 1) ++ rest
      let aliases := if (aliases.lookup name).isSome then
          aliases.map fun (other, old) => (other, if other == name then text else old)
        else aliases ++ [(name, text)]
      changeShell ({ · with aliases })
  return status

/-- Takes aliases away. -/
def unaliasCommand (args : List String) : Act Nat := do
  let c ← choose "a" args
  if c.has 'a' then
    changeShell ({ · with aliases := [] })
    return 0
  let mut status := 0
  for name in c.rest do
    let aliases := (← shell).aliases
    if (aliases.lookup name).isNone then
      say ("unalias: " ++ name ++ " not found\n")
      status := 1
    changeShell ({ · with aliases := aliases.filter (·.1 != name) })
  return status

end Act

end ContainerCommand.Shell
