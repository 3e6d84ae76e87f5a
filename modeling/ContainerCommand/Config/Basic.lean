import ContainerCommand.Command.Basic
import ContainerCommand.Failure
import ContainerCommand.Mount

/-! The configuration: how commands are started and what every task gets.

All that is left out has a default, and so has all that is left out within the table of
the container runtime. -/
namespace ContainerCommand

structure Config where
  /-- How many bytes of each stream of a process are kept. -/
  outputLimit : Nat := 1000000
  /-- Mounts in front of those of each task. -/
  mounts : List MountEntry := []
  launcher : Launcher := {}
deriving DecidableEq

namespace Launcher

open Document in
def ofDocument? (format : Format) (doc : Document) : Option Launcher := do
  let field ← record? format ["binary", "subcommand", "debug_token"] doc
  let standard : Launcher := {}
  return {
    binary := ← defaulted? text? standard.binary (field "binary")
    subcommand := ← defaulted? text? standard.subcommand (field "subcommand")
    debugToken := ← defaulted? text? standard.debugToken (field "debug_token") }

def toDocument (launcher : Launcher) : Document :=
  .table [("binary", .text launcher.binary), ("subcommand", .text launcher.subcommand),
    ("debug_token", .text launcher.debugToken)]

end Launcher

namespace Config

/-- A number of bytes is an unsigned word. -/
def limit? (doc : Document) : Option Nat :=
  (doc.int?.filter (Number.fitsUnsigned 64)).map Int.toNat

/-- The entries of a list of mounts. -/
def mounts? (doc : Document) : Option (List MountEntry) :=
  doc.items?.bind fun items => items.mapM MountEntry.ofDocument?

open Document in
def ofDocument? (format : Format) (doc : Document) : Option Config := do
  let field ← record? format ["output_limit_bytes", "mounts", "runtime"] doc
  let standard : Config := {}
  return {
    outputLimit := ← defaulted? limit? standard.outputLimit (field "output_limit_bytes")
    mounts := ← defaulted? mounts? standard.mounts (field "mounts")
    launcher := ← defaulted? (Launcher.ofDocument? format) standard.launcher (field "runtime") }

def toDocument (config : Config) : Document :=
  .table [("output_limit_bytes", .int config.outputLimit),
    ("mounts", .list (config.mounts.map MountEntry.toDocument)),
    ("runtime", config.launcher.toDocument)]

/-- Refuses a configuration that no task can use. -/
def validate (config : Config) : Outcome Unit := do
  if config.outputLimit = 0 then Outcome.fail .zeroLimit
  if Text.isAllBlank config.launcher.binary then Outcome.fail .blankBinary
  if Text.isAllBlank config.launcher.subcommand then Outcome.fail .blankSubcommand
  let _ ← (Outcome.ofCompile (MountEntry.toRules config.mounts)).during "mounts"

end Config

end ContainerCommand
