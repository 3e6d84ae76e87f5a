import ContainerCommand.Proofs.Resolution.Walk

/-! What requirements decide.

A schema without its requirements (`Schema.unconditional`) declares the same parameters but
suppresses none. The walk does not read requirements, so it goes the same way on both schemas and
ends in the same error or table (`walk_unconditional`), and a resolution is that of the schema
without requirements with the suppressed parameters marked in it (`resolve_eq_map_unconditional`). -/
namespace ContainerCommand

namespace Parameter

/-- The parameter without its requirements. -/
def unconditional (p : Parameter) : Parameter :=
  { p with requires := [] }

@[simp] theorem name_unconditional (p : Parameter) : p.unconditional.name = p.name := rfl

/-- What requires nothing is never suppressed. -/
@[simp] theorem isSuppressedIn_unconditional (p : Parameter) (resolution : Resolution) :
    p.unconditional.isSuppressedIn resolution = false := rfl

theorem Sound.unconditional {p : Parameter} (h : p.Sound) : p.unconditional.Sound :=
  ⟨h.named, h.paired, h.argument, h.isPath, List.not_mem_nil⟩

end Parameter

namespace Schema

/-- The schema without the requirements of its parameters. -/
def unconditional (schema : Schema) : Schema where
  params := schema.params.map Parameter.unconditional
  sound := by
    intro q hq
    obtain ⟨p, hp, rfl⟩ := List.mem_map.mp hq
    have hsound := Parameter.fault?_eq_none_iff.mp (schema.sound p hp)
    exact Parameter.fault?_eq_none_iff.mpr hsound.unconditional
  distinct := by
    rw [List.map_map]
    exact schema.distinct

theorem get?_unconditional (schema : Schema) (name : String) :
    schema.unconditional.get? name = (schema.get? name).map Parameter.unconditional :=
  List.find?_map

theorem contains_unconditional (schema : Schema) :
    schema.unconditional.contains = schema.contains :=
  funext fun _ => List.any_map

end Schema

/-! ### The walk -/

/-- **A visit does not read requirements.** The induction is on the declared names that are not
being visited. -/
theorem Walk.visit_unconditional {schema : Schema} {inputs : Inputs} {name : String}
    {walk : Walk} :
    walk.visit schema.unconditional inputs name = walk.visit schema inputs name := by
  induction hn : walk.unvisited schema using Nat.strongRecOn generalizing name walk with
  | ind n ih =>
    cases hsettled : walk.isSettled name with
    | true => rw [visit_of_isSettled hsettled, visit_of_isSettled hsettled]
    | false =>
      by_cases hvisiting : name ∈ walk.visiting
      · rw [visit_of_mem_visiting hsettled hvisiting, visit_of_mem_visiting hsettled hvisiting]
      have hget := schema.get?_unconditional name
      cases hp : schema.get? name with
      | none =>
        rw [hp] at hget
        rw [visit_of_get?_eq_none hsettled hvisiting hp,
          visit_of_get?_eq_none hsettled hvisiting hget]
      | some p =>
        rw [hp, Option.map_some] at hget
        have hsource : ∀ source, (walk.enter name).visit schema.unconditional inputs source =
            (walk.enter name).visit schema inputs source :=
          fun source => ih _ (hn ▸ unvisited_enter_lt hp hvisiting) rfl
        rw [visit_eq_bind hsettled hvisiting hp, visit_eq_bind hsettled hvisiting hget]
        simp only [hsource]
        rfl

namespace Schema

theorem walk_unconditional (schema : Schema) (inputs : Inputs) :
    schema.unconditional.walk inputs = schema.walk inputs := by
  unfold walk
  show (schema.params.map Parameter.unconditional).foldlM _ _ = _
  rw [List.foldlM_map]
  simp only [Walk.visit_unconditional, Parameter.name_unconditional]

theorem missing?_unconditional (schema : Schema) (resolution : Resolution) :
    schema.unconditional.missing? resolution =
      (schema.missing? resolution).map Parameter.unconditional :=
  List.find?_map

/-! ### The resolution -/

/-- Marks that are there before count for nothing. -/
theorem markSuppressed_markSuppressed (schema other : Schema) (resolution : Resolution) :
    schema.markSuppressed (other.markSuppressed resolution) = schema.markSuppressed resolution := by
  refine Table.ext_get? fun name => ?_
  have hmarked : ∀ (schema : Schema) (resolution : Resolution),
      (schema.markSuppressed resolution).get? name = (resolution.get? name).map fun r =>
        { r with isSuppressed := (schema.get? name).any (·.isSuppressedIn resolution) } :=
    fun _ _ => Table.get?_map ..
  rw [hmarked, hmarked, hmarked, Option.map_map]
  simp only [isSuppressedIn_markSuppressed]
  rfl

/-- **A resolution is that of the schema without requirements**, with the parameters marked that
are suppressed, and fails as that does. -/
theorem resolve_eq_map_unconditional (schema : Schema) (inputs : Inputs) :
    schema.resolve inputs = (schema.unconditional.resolve inputs).map schema.markSuppressed := by
  have hundeclared : schema.unconditional.undeclared? inputs = schema.undeclared? inputs := by
    rw [undeclared?, contains_unconditional, undeclared?]
  unfold resolve
  rw [hundeclared, walk_unconditional]
  cases schema.undeclared? inputs with
  | some name => rfl
  | none =>
    cases schema.walk inputs with
    | error e => rfl
    | ok after =>
      simp only [missing?_unconditional, bind, Except.bind]
      cases schema.missing? after.resolved with
      | some p => rfl
      | none => exact congrArg Except.ok (schema.markSuppressed_markSuppressed _ _).symm

end Schema

end ContainerCommand
