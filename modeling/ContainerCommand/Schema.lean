import ContainerCommand.Parameter.Basic

/-! Schemas: the parameters that a task declares.

The parameters of a schema contradict nothing and have different names, so that a name
stands for one of them. References between them are checked apart, since a schema may
refer to one that it is merged with. Merging moves the leading parameters of the
second schema behind those of the first. -/
namespace ContainerCommand

namespace Parameter

/-- The largest position of those parameters that lead, or zero. -/
def lastLead (params : List Parameter) : Int :=
  (params.filterMap position).foldl max 0

/-- The first of the parameter's references that is not declared. -/
def dangling? (declared : String → Bool) (p : Parameter) : Option SchemaFault :=
  match p.requires.find? (!declared ·) with
  | some required => some (.unknownRequirement p.name required)
  | none => (p.nameSource.filter (!declared ·)).map (.unknownSource p.name)

end Parameter

/-- Parameters in the order in which they are declared. -/
structure Schema where
  params : List Parameter
  sound : ∀ p ∈ params, p.fault? = none
  distinct : (params.map Parameter.name).Nodup

namespace Schema

def empty : Schema := ⟨[], by simp, .nil⟩

/-- The parameter of a name. -/
def get? (schema : Schema) (name : String) : Option Parameter :=
  schema.params.find? (·.name == name)

def contains (schema : Schema) (name : String) : Bool :=
  schema.params.any (·.name == name)

/-- The first parameter that is at fault itself or repeats a name; `seen` holds the names of those
before. -/
def firstFault? (seen : List String) : List Parameter → Option SchemaFault
  | [] => none
  | p :: rest =>
    match p.fault? with
    | some fault => some fault
    | none =>
      if seen.contains p.name then some (.duplicate p.name)
      else firstFault? (p.name :: seen) rest

/-- Parameters of which none is at fault are sound and have different names. -/
theorem of_firstFault?_eq_none {seen : List String} {params : List Parameter}
    (h : firstFault? seen params = none) :
    (∀ p ∈ params, p.fault? = none) ∧ (params.map Parameter.name).Nodup ∧
      ∀ p ∈ params, p.name ∉ seen := by
  induction params generalizing seen with
  | nil => simp
  | cons p rest ih =>
    simp only [firstFault?] at h
    split at h
    · cases h
    · rename_i hp
      split at h
      · cases h
      · rename_i hseen
        obtain ⟨hsound, hdistinct, hnew⟩ := ih h
        simp only [List.contains_eq_mem, decide_eq_true_eq] at hseen
        simp only [List.forall_mem_cons, List.map_cons, List.nodup_cons, List.mem_map]
        simp only [List.mem_cons, not_or] at hnew
        refine ⟨⟨hp, hsound⟩, ⟨?_, hdistinct⟩, hseen, fun q hq => (hnew q hq).2⟩
        rintro ⟨q, hq, hname⟩
        exact (hnew q hq).1 hname

/-- The schema of parameters, unless one is at fault or repeats the name of one before. -/
def ofList (params : List Parameter) : Except CompileError Schema :=
  match h : firstFault? [] params with
  | some fault => .error (.invalidSchema fault)
  | none =>
    .ok ⟨params, (of_firstFault?_eq_none h).1, (of_firstFault?_eq_none h).2.1⟩

/-- The largest position of a leading parameter, or zero. -/
def maxLeading (schema : Schema) : Int :=
  Parameter.lastLead schema.params

/-- The first of a parameter's references that a schema does not resolve. -/
def danglingOf? (schema : Schema) (p : Parameter) : Option SchemaFault :=
  p.dangling? schema.contains

/-- The first reference that the schema does not resolve. -/
def dangling? (schema : Schema) : Option SchemaFault :=
  schema.params.findSome? schema.danglingOf?

/-- Refuses a schema with references that it does not resolve. -/
def checkReferences (schema : Schema) : Except CompileError Unit :=
  match schema.dangling? with
  | some fault => .error (.invalidSchema fault)
  | none => .ok ()

/-- Both schemas in one, the second one's leading parameters behind the first one's. -/
def merge (base extension : Schema) : Except CompileError Schema := do
  let merged ← ofList (base.params ++ extension.params.map (·.shift base.maxLeading))
  merged.checkReferences
  return merged

end Schema

end ContainerCommand
