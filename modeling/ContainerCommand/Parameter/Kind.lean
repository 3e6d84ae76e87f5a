/-! Kinds and positions of parameters. -/
namespace ContainerCommand

/-- What kind of value a parameter takes. -/
inductive Kind where
  /-- A switch that shows its template when it is on. -/
  | flag
  /-- A switch that other parameters or the runtime read. -/
  | boolean
  | scalar
  | path
  | pathList
deriving DecidableEq

namespace Kind

def label : Kind → String
  | .flag => "flag"
  | .boolean => "boolean"
  | .scalar => "scalar"
  | .path => "path"
  | .pathList => "path-list"

def ofLabel? : String → Option Kind
  | "flag" => some .flag
  | "boolean" => some .boolean
  | "scalar" => some .scalar
  | "path" => some .path
  | "path-list" => some .pathList
  | _ => none

/-- Whether the parameter is a switch. -/
def isSwitch : Kind → Bool
  | .flag | .boolean => true
  | _ => false

/-- Whether the parameter names paths on the host. -/
def isPath : Kind → Bool
  | .path | .pathList => true
  | _ => false

end Kind

/-- The three groups in which tokens are shown. -/
inductive Group where
  | leading
  | unordered
  | trailing
deriving DecidableEq

namespace Group

/-- The group of a position: positions from zero on lead, negative ones trail. -/
def ofPosition : Option Int → Group
  | none => .unordered
  | some p => if 0 ≤ p then .leading else .trailing

def label : Group → String
  | .leading => "leading"
  | .unordered => "unordered"
  | .trailing => "trailing"

end Group

end ContainerCommand
