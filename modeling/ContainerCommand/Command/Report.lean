import ContainerCommand.Command.Basic
import ContainerCommand.Task.Run

/-! Commands as documents: each token with its parameter and role, each value with its origin. -/
namespace ContainerCommand

def Role.toDocument : Role → Document
  | .argument => .table [("kind", .text "argument")]
  | .redirect target => .table [("kind", .text "redirect"), ("target", .text target)]

def Token.toDocument (token : Token) : Document :=
  .table [("param", .text token.param), ("words", .list (token.words.map .text)),
    ("role", token.role.toDocument)]

def Resolved.toDocument (resolved : Resolved) : Document :=
  .table [("value", resolved.value.toDocument), ("origin", .text resolved.origin.label),
    ("suppressed", .bool resolved.isSuppressed)]

def Resolution.toDocument (resolution : Resolution) : Document :=
  .table (resolution.entries.map fun (name, resolved) => (name, resolved.toDocument))

def Command.toDocument (command : Command) : Document :=
  .table [("prefix", .list (command.launch.map .text)),
    ("tokens", .list (command.tokens.map Token.toDocument)),
    ("resolved", command.resolved.toDocument)]

/-- What there is to say of a compiled task: what would be run, and how it came about. -/
def CompiledTask.toDocument (compiled : CompiledTask) : Document :=
  .table [("task", .text compiled.task), ("cmdline", .text compiled.command.cmdline),
    ("argv", .list (compiled.command.argv.map .text)),
    ("redirect", match compiled.command.redirectTarget with
      | some target => .text target
      | none => .null),
    ("command", compiled.command.toDocument)]

end ContainerCommand
