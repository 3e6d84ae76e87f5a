import ContainerCommand.Resolution.Basic

/-! The walk that resolves all parameters of a schema.

A parameter is visited after the one that its name is derived from. The walk keeps the
names that are being visited: meeting one of them again is a cycle, and since only
declared names are added, no visit goes deeper than there are parameters
(`Walk.unvisited`). -/
namespace ContainerCommand

/-- How far the walk has come. -/
structure Walk where
  resolved : Resolution := ∅
  /-- The parameters found to have no value. -/
  undefined : List String := []
  /-- The parameters being visited, the innermost first. -/
  visiting : List String := []

namespace Walk

/-- The number of declared parameters that are not being visited. -/
def unvisited (schema : Schema) (walk : Walk) : Nat :=
  schema.params.countP fun p => !walk.visiting.contains p.name

/-- Whether it is known if a parameter has a value. -/
def isSettled (walk : Walk) (name : String) : Bool :=
  walk.resolved.contains name || walk.undefined.contains name

def enter (walk : Walk) (name : String) : Walk :=
  { walk with visiting := name :: walk.visiting }

/-- The walk after a visit that has found a value or none. -/
def leave (walk : Walk) (name : String) (found : Option (Value × Origin)) : Walk :=
  let visiting := walk.visiting.erase name
  match found with
  | some (value, origin) =>
    { walk with visiting, resolved := walk.resolved.insert name { value, origin } }
  | none => { walk with visiting, undefined := name :: walk.undefined }

theorem unvisited_enter_lt {schema : Schema} {walk : Walk} {name : String} {p : Parameter}
    (hp : schema.get? name = some p) (hv : name ∉ walk.visiting) :
    (walk.enter name).unvisited schema < walk.unvisited schema := by
  have hmem : p ∈ schema.params := List.mem_of_find?_eq_some hp
  have hname : p.name = name := by simpa using List.find?_some hp
  obtain ⟨front, back, hsplit⟩ := List.append_of_mem hmem
  have hle : ∀ params : List Parameter,
      params.countP (fun q => !(walk.enter name).visiting.contains q.name) ≤
        params.countP fun q => !walk.visiting.contains q.name := fun params =>
    List.countP_mono_left fun q _ hq => by
      simp [enter] at hq ⊢
      exact hq.2
  have hin : (!walk.visiting.contains p.name) = true := by simp [hname, hv]
  have hout : (!(walk.enter name).visiting.contains p.name) = false := by simp [enter, hname]
  simp only [unvisited, hsplit, List.countP_append, List.countP_cons, hin, hout]
  have := hle front
  have := hle back
  simp only [if_true, Bool.false_eq_true, if_false]
  omega

/-- Settles a parameter, the one that its name is derived from first. -/
def visit (schema : Schema) (inputs : Inputs) (name : String) (walk : Walk) :
    Except CompileError Walk :=
  if walk.isSettled name then .ok walk
  else if _ : name ∈ walk.visiting then .error (.derivationCycle name)
  else
    match _ : schema.get? name with
    | none => .error (.unknownParameter name)
    | some p => do
      let given := inputs.get? name
      let known ← match given, p.nameSource with
        | none, some source => visit schema inputs source (walk.enter name)
        | _, _ => .ok (walk.enter name)
      let found ← p.resolve given known.resolved
      return known.leave name found
termination_by walk.unvisited schema
decreasing_by exact unvisited_enter_lt ‹_› ‹_›

end Walk

namespace Schema

/-- The table with the parameters marked that are kept from being shown. -/
def markSuppressed (schema : Schema) (resolution : Resolution) : Resolution :=
  resolution.map fun name r =>
    { r with isSuppressed := (schema.get? name).any (·.isSuppressedIn resolution) }

/-- The first input that is not declared. -/
def undeclared? (schema : Schema) (inputs : Inputs) : Option String :=
  inputs.names.find? (!schema.contains ·)

/-- The first mandatory parameter without a value. -/
def missing? (schema : Schema) (resolution : Resolution) : Option Parameter :=
  schema.params.find? fun p => p.isMandatory && !resolution.contains p.name

/-- The walk through all parameters in the order in which they are declared. -/
def walk (schema : Schema) (inputs : Inputs) : Except CompileError Walk :=
  schema.params.foldlM (fun (walk : Walk) p => walk.visit schema inputs p.name) {}

/-- The values of all parameters. Every input must be declared, and every mandatory parameter must
have a value. -/
def resolve (schema : Schema) (inputs : Inputs) : Except CompileError Resolution := do
  if let some name := schema.undeclared? inputs then
    throw (.unknownParameter name)
  let walk ← schema.walk inputs
  if let some p := schema.missing? walk.resolved then
    throw (.missingMandatory p.name)
  return schema.markSuppressed walk.resolved

end Schema

end ContainerCommand
