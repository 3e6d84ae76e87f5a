import ContainerCommand.Schema
import ContainerCommand.Table

/-! Resolved parameters.

A parameter has the value that the caller gives it, or a name derived from the value of
another parameter, or none. A parameter that requires others is suppressed while one of
them is not true; it keeps its value. -/
namespace ContainerCommand

/-- The values that the caller gives. -/
abbrev Inputs : Type := Table Value

/-- Where a value comes from. -/
inductive Origin where
  | explicit
  | derived
deriving DecidableEq

namespace Origin

def label : Origin → String
  | .explicit => "explicit"
  | .derived => "derived"

end Origin

/-- What is known of a parameter that has a value. -/
structure Resolved where
  value : Value
  origin : Origin
  /-- Whether the parameter is kept from being shown. -/
  isSuppressed : Bool := false
deriving DecidableEq

/-- The parameters that have a value. -/
abbrev Resolution : Type := Table Resolved

namespace Resolution

def value? (resolution : Resolution) (name : String) : Option Value :=
  (resolution.get? name).map Resolved.value

/-- Whether a parameter has a value that is true. -/
def isTruthy (resolution : Resolution) (name : String) : Bool :=
  (resolution.value? name).any Value.isTruthy

end Resolution

/-- The text of a value that names can be derived from: a text or a number. -/
def Value.sourceText? : Value → Option String
  | .text s => some s
  | .int n => some (Value.int n).display
  | .float x => some (Value.float x).display
  | .bool _ | .list _ => none

namespace Parameter

/-- The name derived from a value of the source parameter. -/
def derive (p : Parameter) (source : String) (template : Template.Name) (value : Value) :
    Except CompileError Value :=
  match value.sourceText? with
  | none => .error (.invalidValue p.name (.underivable value.tag source))
  | some text => .ok (.text (template.apply (pathStem text)))

/-- The value of a parameter, if it has one: the given one, or one derived from what is already
known. -/
def resolve (p : Parameter) (given : Option Value) (known : Resolution) :
    Except CompileError (Option (Value × Origin)) := do
  match given, p.nameSource, p.nameTemplate with
  | some value, _, _ =>
    p.check value
    return some (value, .explicit)
  | none, some source, some template =>
    match known.value? source with
    | none => return none
    | some value =>
      let name ← p.derive source template value
      p.check name
      return some (name, .derived)
  | none, _, _ => return none

/-- Whether a parameter is kept from being shown: it requires one that is not true. -/
def isSuppressedIn (p : Parameter) (resolution : Resolution) : Bool :=
  p.requires.any (!resolution.isTruthy ·)

end Parameter

end ContainerCommand
