import ContainerCommand.Document
import ContainerCommand.Parameter.Kind

/-! The shape of a task file.

The shape is checked before the file is read: it admits no names but the known ones and
asks for exactly one of a task and a tool. Numbers that are neither finite nor integers
have no place in a shape, since shapes are stated for a notation that lacks them. -/
namespace ContainerCommand

/-- What a document may look like. -/
abbrev Shape : Type := Document → Bool

namespace Shape

def text : Shape := fun doc => doc.text?.isSome

def nonEmptyText : Shape := fun doc => doc.text?.any (!·.isEmpty)

def bool : Shape := fun doc => doc.bool?.isSome

def number : Shape
  | .int _ => true
  | .float x => x.isFinite
  | _ => false

/-- A number without a fraction, in whichever way it is written. -/
def integer : Shape
  | .int _ => true
  | .float x =>
    match x.datum with
    | .finite _ mantissa exponent => (Number.Binary64.wholeMagnitude? mantissa exponent).isSome
    | _ => false
  | _ => false

/-- One of some texts. -/
def oneOf (labels : List String) : Shape := fun doc => doc.text?.any labels.contains

def listOf (item : Shape) : Shape := fun doc => doc.items?.any (·.all item)

/-- A list of two. -/
def pairOf (item : Shape) : Shape := fun doc =>
  doc.items?.any fun items => items.length == 2 && items.all item

/-- A table whose entries all have one shape. -/
def tableOf (item : Shape) : Shape := fun doc =>
  doc.entries?.any fun entries => entries.all fun entry => item entry.2

/-- A table of the named entries, of which some must be there. -/
def record (required : List String) (fields : List (String × Shape)) : Shape := fun doc =>
  doc.entries?.any fun entries =>
    required.all (fun name => (Document.find? entries name).isSome) &&
      entries.all fun entry => (fields.lookup entry.1).any fun shape => shape entry.2

/-- Whether a table has an entry. -/
def has (name : String) : Shape := fun doc =>
  doc.entries?.any fun entries => (Document.find? entries name).isSome

end Shape

namespace TaskFile
open Shape

def parameterShape : Shape :=
  record ["name", "kind"] [
    ("name", nonEmptyText),
    ("kind", oneOf ([Kind.flag, .boolean, .scalar, .path, .pathList].map Kind.label)),
    ("argstr", text),
    ("position", integer),
    ("mandatory", bool),
    ("name_source", text),
    ("name_template", text),
    ("requires", listOf text),
    ("is_container_path", bool),
    ("exists_required", bool),
    ("desc", text)]

def toolShape : Shape :=
  record ["name", "params"] [
    ("name", nonEmptyText),
    ("summary", text),
    ("command", nonEmptyText),
    ("params", listOf parameterShape)]

def mountShape : Shape := fun doc => text doc || pairOf text doc

def valueShape : Shape := fun doc => bool doc || number doc || text doc || listOf text doc

/-- The shape of a task file. -/
def shape : Shape := fun doc =>
  record [] [
    ("task", nonEmptyText),
    ("tool", toolShape),
    ("mounts", listOf mountShape),
    ("inputs", tableOf valueShape)] doc &&
  (has "task" doc != has "tool" doc)

end TaskFile

end ContainerCommand
