import ContainerCommand.TaskFile.Basic
import ContainerCommand.TaskFile.Shape
import ContainerCommand.Toml.Reader

/-! Reading the text of a task file.

The text is first read for whatever it holds: its integers must be signed words, and a
table that begins like a moment must be one (`untyped?`). What comes of that must have the
shape of a task file. Then the text is read as a task file. -/
namespace ContainerCommand

/-- The value that makes a table a moment: the one under a moment's name, if no other name is
less. -/
def momentValue? (entries : List (String × Document)) : Option Document :=
  if entries.all fun entry => Document.momentKey ≤ entry.1 then
    Document.find? entries Document.momentKey
  else none

mutual

/-- A document as it looks to a reader that does not know what it is for. A table of a moment is
the moment whatever else it holds, and there is no such document if it has no moment's text. -/
def Document.untyped? : Document → Option Document
  | .int n => if Number.fitsWord n then some (.int n) else none
  | .list items => (listUntyped? items).map .list
  | .table entries =>
    match momentValue? entries with
    | some value => do
      let m ← Toml.Moment.read? (← value.text?).toList
      return .moment m.text
    | none => (entriesUntyped? entries).map .table
  | doc => some doc

/-- The documents of a list as they look without a type. -/
def listUntyped? : List Document → Option (List Document)
  | [] => some []
  | doc :: rest => do return (← doc.untyped?) :: (← listUntyped? rest)

/-- The entries of a table as they look without a type. -/
def entriesUntyped? : List (String × Document) → Option (List (String × Document))
  | [] => some []
  | (name, doc) :: rest => do return (name, ← doc.untyped?) :: (← entriesUntyped? rest)

end

namespace TaskFile

/-- The document that a text holds, and how it looks without a type. -/
def documents? (contents : String) : Option (Document × Document) := do
  let doc ← Toml.read? contents.toList
  return (doc, ← doc.untyped?)

/-- The task file that a text holds. -/
def parse (contents : String) : Outcome TaskFile := do
  let (doc, seen) ← (Outcome.ofOption .malformedDocument (documents? contents)).during
    "parse task file toml"
  if !shape seen then Outcome.fail .taskShape
  (Outcome.ofOption .unreadableRecord (ofDocument? .toml doc)).during "deserialize task file"

end TaskFile

end ContainerCommand
