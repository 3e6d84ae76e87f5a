import ContainerCommand.Json.Reader
import ContainerCommand.Parameter.Basic

/-! Parameters as documents.

A parameter is a record. Fields at their default are left out where the record is
written, the three switches apart, and what is left out is at its default where it is
read. -/
namespace ContainerCommand

namespace Kind

/-- A kind is written as its label, or as a table of the label with nothing under it. -/
def ofDocument? : Document → Option Kind
  | .text label => ofLabel? label
  | .table [(label, .null)] => ofLabel? label
  | _ => none

end Kind

namespace Template

def Argument.ofDocument? (doc : Document) : Option Argument :=
  doc.text?.bind fun raw => (parse raw).toOption

def Name.ofDocument? (doc : Document) : Option Name :=
  doc.text?.bind fun raw => (parse raw).toOption

end Template

namespace Parameter

/-- A position is a whole number of thirty-two bits. -/
def position? (doc : Document) : Option Int :=
  doc.int?.filter (Number.fitsSigned 32)

/-- The fields of the record in their order. -/
def fieldNames : List String :=
  ["name", "kind", "argstr", "position", "mandatory", "name_source", "name_template", "requires",
    "is_container_path", "exists_required", "desc"]

open Document in
/-- The parameter that a document declares. -/
def ofDocument? (format : Format) (doc : Document) : Option Parameter := do
  let field ← record? format fieldNames doc
  return {
    name := ← (field "name").bind text?
    kind := ← (field "kind").bind Kind.ofDocument?
    argument := ← optional? Template.Argument.ofDocument? (field "argstr")
    position := ← optional? position? (field "position")
    isMandatory := ← defaulted? bool? false (field "mandatory")
    nameSource := ← optional? text? (field "name_source")
    nameTemplate := ← optional? Template.Name.ofDocument? (field "name_template")
    requires := ← defaulted? texts? [] (field "requires")
    isContainerPath := ← defaulted? bool? false (field "is_container_path")
    mustExist := ← defaulted? bool? false (field "exists_required")
    description := ← defaulted? text? "" (field "desc") }

/-- The parameter that a JSON text declares. -/
def ofJson? (text : String) : Option Parameter :=
  (Json.readRecord? fieldNames text.toList).bind (ofDocument? .json)

/-- The entry of a field that is written only if it holds something. -/
def entry? (name : String) (doc : Option Document) : List (String × Document) :=
  (doc.map fun d => (name, d)).toList

/-- The document that declares the parameter. -/
def toDocument (p : Parameter) : Document :=
  .table <|
    [("name", .text p.name), ("kind", .text p.kind.label)] ++
    entry? "argstr" (p.argument.map fun t => .text t.raw) ++
    entry? "position" (p.position.map .int) ++
    [("mandatory", .bool p.isMandatory)] ++
    entry? "name_source" (p.nameSource.map .text) ++
    entry? "name_template" (p.nameTemplate.map fun t => .text t.raw) ++
    entry? "requires"
      (if p.requires.isEmpty then none else some (.list (p.requires.map .text))) ++
    [("is_container_path", .bool p.isContainerPath), ("exists_required", .bool p.mustExist)] ++
    entry? "desc" (if p.description.isEmpty then none else some (.text p.description))

end Parameter

end ContainerCommand
