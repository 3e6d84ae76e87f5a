import ContainerCommand.Proofs.Success
import ContainerCommand.Schema
import Mathlib.Data.List.Nodup

/-! Looking parameters up.

A name stands for the one parameter of a schema that has it (`get?_eq_some_iff`), whatever the
order of declaration (`get?_eq_of_perm`). -/
namespace ContainerCommand.Schema

variable {schema : Schema}

/-- Different parameters have different names. -/
theorem eq_of_name_eq {p q : Parameter} (hp : p ∈ schema.params) (hq : q ∈ schema.params)
    (h : p.name = q.name) : p = q :=
  List.inj_on_of_nodup_map schema.distinct hp hq h

theorem nodup_params : schema.params.Nodup :=
  schema.distinct.of_map

theorem get?_eq_some_iff {name : String} {p : Parameter} :
    schema.get? name = some p ↔ p ∈ schema.params ∧ p.name = name := by
  constructor
  · intro h
    exact ⟨List.mem_of_find?_eq_some h, by simpa using List.find?_some h⟩
  · rintro ⟨hp, rfl⟩
    cases hq : schema.get? p.name with
    | none => simpa using List.find?_eq_none.mp hq p hp
    | some q =>
      have hname : q.name = p.name := by simpa using List.find?_some hq
      rw [eq_of_name_eq (List.mem_of_find?_eq_some hq) hp hname]

theorem get?_name {p : Parameter} (hp : p ∈ schema.params) : schema.get? p.name = some p :=
  get?_eq_some_iff.mpr ⟨hp, rfl⟩

theorem contains_iff {name : String} :
    schema.contains name = true ↔ ∃ p ∈ schema.params, p.name = name := by
  simp [contains]

theorem get?_eq_none_iff {name : String} :
    schema.get? name = none ↔ schema.contains name = false := by
  simp [get?, contains]

/-! ### Other orders of declaration -/

variable {other : Schema}

/-- A name stands for the same parameter in whatever order the parameters are declared. -/
theorem get?_eq_of_perm (hperm : schema.params.Perm other.params) (name : String) :
    schema.get? name = other.get? name := by
  refine Option.ext fun p => ?_
  rw [get?_eq_some_iff, get?_eq_some_iff, hperm.mem_iff]

theorem contains_eq_of_perm (hperm : schema.params.Perm other.params) (name : String) :
    schema.contains name = other.contains name :=
  hperm.any_eq

end ContainerCommand.Schema
