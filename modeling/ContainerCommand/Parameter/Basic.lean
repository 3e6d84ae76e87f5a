import ContainerCommand.Template.Argument
import ContainerCommand.Template.Name

/-! Parameters: what a task may be given and how it is shown.

A parameter is declared by its kind, its template and its position. What it declares
may contradict itself (`Parameter.fault?`), and a value may not fit its kind
(`Kind.accepts`). -/
namespace ContainerCommand

namespace Kind

/-- Whether a value fits the kind. A list of paths may be given as one text. -/
def accepts : Kind → Value → Bool
  | .flag, .bool _ | .boolean, .bool _ => true
  | .scalar, .text _ | .scalar, .int _ | .scalar, .float _ => true
  | .path, .text _ => true
  | .pathList, .list _ | .pathList, .text _ => true
  | _, _ => false

end Kind

/-- A declared parameter. -/
structure Parameter where
  name : String
  kind : Kind
  /-- How a value is shown; without it the parameter never is. -/
  argument : Option Template.Argument := none
  position : Option Int := none
  isMandatory : Bool := false
  /-- The parameter whose value a name is derived from. -/
  nameSource : Option String := none
  nameTemplate : Option Template.Name := none
  /-- The parameters that must be true for this one to be shown. -/
  requires : List String := []
  /-- Whether the value is shown as the container sees it. -/
  isContainerPath : Bool := false
  /-- Whether the value must exist on the host. -/
  mustExist : Bool := false
  description : String := ""

namespace Parameter

def group (p : Parameter) : Group :=
  Group.ofPosition p.position

/-- The contradiction between the template and the kind. -/
def argumentFault? (p : Parameter) : Option ParameterFault :=
  match p.argument with
  | none => none
  | some t =>
    if p.kind.isSwitch && t.hasPlaceholder then some (.placeholderForbidden p.kind t.raw)
    else if !p.kind.isSwitch && !t.hasPlaceholder then some (.placeholderMissing p.kind t.raw)
    else if t.isRepeated && p.kind != .pathList then some (.repeatForbidden t.raw)
    else none

/-- The first contradiction in what is declared. -/
def contradiction? (p : Parameter) : Option ParameterFault :=
  if p.nameSource.isSome != p.nameTemplate.isSome then some .halfDerived
  else
    match p.argumentFault? with
    | some fault => some fault
    | none =>
      if p.mustExist && !p.kind.isPath then some .existenceForbidden
      else if p.requires.contains p.name then some .requiresItself
      else none

/-- Why no schema can hold the parameter. -/
def fault? (p : Parameter) : Option SchemaFault :=
  if Text.isAllBlank p.name then some .unnamed
  else p.contradiction?.map (.parameter p.name)

/-- Refuses a value that does not fit. -/
def check (p : Parameter) (value : Value) : Except CompileError Unit :=
  if p.kind.accepts value then .ok ()
  else .error (.invalidValue p.name (.misfit value.tag p.kind))

/-- The parameter moved back among those that lead; the others stay where they are. Sums are exact:
which schemas can be moved within signed words is said where it matters (`Schema.fitsBehind`). -/
def shift (p : Parameter) (offset : Int) : Parameter :=
  { p with position := p.position.map fun n => if 0 ≤ n then n + offset else n }

@[simp] theorem name_shift (p : Parameter) (offset : Int) : (p.shift offset).name = p.name := rfl

/-- Moving a parameter does not make it contradict itself. -/
@[simp] theorem fault?_shift (p : Parameter) (offset : Int) :
    (p.shift offset).fault? = p.fault? := rfl

end Parameter

end ContainerCommand
