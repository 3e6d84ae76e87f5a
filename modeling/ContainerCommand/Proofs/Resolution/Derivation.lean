import ContainerCommand.Proofs.Parameter.Soundness
import ContainerCommand.Proofs.Schema.Lookup
import ContainerCommand.Resolution.Basic
import Mathlib.Logic.Relation

/-! What the names of a schema stand for, whatever the order in which they are visited.

A parameter without an input waits for the one that its name is derived from
(`Schema.Awaits`), so the parameters hang together in chains. `Schema.Settles` reads a
chain from its end: an input stands for itself, a parameter at the end of a chain without
one has no value, and every other parameter has a value exactly if its source has one.

A name settles in one way at most (`Settles.unique`), never by way of itself
(`Settles.not_awaits_self`), and with every name that it waits for (`Settles.of_awaits`). -/
namespace ContainerCommand

namespace Schema

/-- The parameter's names are derived from the source. -/
def DerivesFrom (schema : Schema) (name source : String) : Prop :=
  ∃ p, schema.get? name = some p ∧ p.nameSource = some source

/-- The parameter has no input and is derived from the source. -/
def Awaits (schema : Schema) (inputs : Inputs) (name source : String) : Prop :=
  ∃ p, schema.get? name = some p ∧ inputs.get? name = none ∧ p.nameSource = some source

/-- What a name comes to stand for: a value with its origin, or nothing. -/
inductive Settles (schema : Schema) (inputs : Inputs) : String → Option (Value × Origin) → Prop
  | given {name p value} : schema.get? name = some p → inputs.get? name = some value →
      Settles schema inputs name (some (value, .explicit))
  | bare {name p} : schema.get? name = some p → inputs.get? name = none → p.nameSource = none →
      Settles schema inputs name none
  | idle {name p source} : schema.get? name = some p → inputs.get? name = none →
      p.nameSource = some source → Settles schema inputs source none →
      Settles schema inputs name none
  | derived {name p source template value origin text} : schema.get? name = some p →
      inputs.get? name = none → p.nameSource = some source → p.nameTemplate = some template →
      Settles schema inputs source (some (value, origin)) → value.sourceText? = some text →
      Settles schema inputs name (some (.text (template.apply (pathStem text)), .derived))

variable {schema : Schema} {inputs : Inputs} {name : String} {found : Option (Value × Origin)}

namespace Settles

theorem declared (h : schema.Settles inputs name found) : schema.contains name = true := by
  obtain ⟨p, hp⟩ : ∃ p, schema.get? name = some p := by
    cases h with
    | given hp _ => exact ⟨_, hp⟩
    | bare hp _ _ => exact ⟨_, hp⟩
    | idle hp _ _ _ => exact ⟨_, hp⟩
    | derived hp _ _ _ _ _ => exact ⟨_, hp⟩
  rw [contains_iff]
  exact ⟨p, get?_eq_some_iff.mp hp⟩

/-- An input settles its name as itself. -/
theorem eq_given {value : Value} (h : schema.Settles inputs name found)
    (hgiven : inputs.get? name = some value) : found = some (value, .explicit) := by
  cases h with
  | given _ h' =>
    rw [hgiven] at h'
    cases h'
    rfl
  | bare _ h' _ => rw [hgiven] at h'; cases h'
  | idle _ h' _ _ => rw [hgiven] at h'; cases h'
  | derived _ h' _ _ _ _ => rw [hgiven] at h'; cases h'

/-- A name without an input or a source has no value. -/
theorem eq_none_of_bare {p : Parameter} (h : schema.Settles inputs name found)
    (hp : schema.get? name = some p) (hgiven : inputs.get? name = none)
    (hsource : p.nameSource = none) : found = none := by
  cases h with
  | given _ h' => rw [hgiven] at h'; cases h'
  | bare _ _ _ => rfl
  | idle _ _ _ _ => rfl
  | derived hp' _ hsource' _ _ _ =>
    rw [hp] at hp'
    cases hp'
    rw [hsource] at hsource'
    cases hsource'

/-- A name that waits for a source settles by what the source settles as. -/
theorem of_source {p : Parameter} {source : String} (h : schema.Settles inputs name found)
    (hp : schema.get? name = some p) (hgiven : inputs.get? name = none)
    (hsource : p.nameSource = some source) :
    (schema.Settles inputs source none ∧ found = none) ∨
      ∃ template value origin text, p.nameTemplate = some template ∧
        schema.Settles inputs source (some (value, origin)) ∧ value.sourceText? = some text ∧
        found = some (.text (template.apply (pathStem text)), .derived) := by
  cases h with
  | given _ h' => rw [hgiven] at h'; cases h'
  | bare hp' _ hbare =>
    rw [hp] at hp'
    cases hp'
    rw [hsource] at hbare
    cases hbare
  | idle hp' _ hsource' hidle =>
    rw [hp] at hp'
    cases hp'
    rw [hsource] at hsource'
    cases hsource'
    exact .inl ⟨hidle, rfl⟩
  | derived hp' _ hsource' htemplate hvalue htext =>
    rw [hp] at hp'
    cases hp'
    rw [hsource] at hsource'
    cases hsource'
    exact .inr ⟨_, _, _, _, htemplate, hvalue, htext, rfl⟩

/-- A name settles in one way at most. -/
theorem unique {other : Option (Value × Origin)} (h : schema.Settles inputs name found)
    (h' : schema.Settles inputs name other) : found = other := by
  induction h generalizing other with
  | given _ hgiven => exact (h'.eq_given hgiven).symm
  | bare hp hgiven hsource => exact (h'.eq_none_of_bare hp hgiven hsource).symm
  | idle hp hgiven hsource _ ih =>
    rcases h'.of_source hp hgiven hsource with ⟨_, rfl⟩ | ⟨_, _, _, _, _, hvalue, _, _⟩
    · rfl
    · cases ih hvalue
  | derived hp hgiven hsource htemplate _ htext ih =>
    rcases h'.of_source hp hgiven hsource with
      ⟨hidle, _⟩ | ⟨_, _, _, _, htemplate', hvalue, htext', rfl⟩
    · cases ih hidle
    · cases ih hvalue
      rw [htemplate] at htemplate'
      rw [htext] at htext'
      cases htemplate'
      cases htext'
      rfl

/-- With a name settle those that it waits for. -/
theorem of_awaits {source : String} (h : schema.Settles inputs name found)
    (hawaits : schema.Awaits inputs name source) :
    ∃ found', schema.Settles inputs source found' := by
  obtain ⟨p, hp, hgiven, hsource⟩ := hawaits
  rcases h.of_source hp hgiven hsource with ⟨hidle, _⟩ | ⟨_, _, _, _, _, hvalue, _, _⟩
  · exact ⟨_, hidle⟩
  · exact ⟨_, hvalue⟩

theorem of_reaches {source : String} (h : schema.Settles inputs name found)
    (hreaches : Relation.ReflTransGen (schema.Awaits inputs) name source) :
    ∃ found', schema.Settles inputs source found' := by
  induction hreaches with
  | refl => exact ⟨_, h⟩
  | tail _ hawaits ih =>
    obtain ⟨_, hmiddle⟩ := ih
    exact hmiddle.of_awaits hawaits

end Settles

/-- A name waits for one source at most. -/
theorem Awaits.unique {source other : String} (h : schema.Awaits inputs name source)
    (h' : schema.Awaits inputs name other) : source = other := by
  obtain ⟨p, hp, _, hsource⟩ := h
  obtain ⟨q, hq, _, hother⟩ := h'
  rw [hp] at hq
  cases hq
  rw [hsource] at hother
  exact Option.some.inj hother

/-- On a cycle, what a name waits for is on the cycle too. -/
theorem transGen_source {source : String} (hawaits : schema.Awaits inputs name source)
    (h : Relation.TransGen (schema.Awaits inputs) name name) :
    Relation.TransGen (schema.Awaits inputs) source source := by
  obtain ⟨next, hnext, hback⟩ := Relation.TransGen.head'_iff.mp h
  rw [hawaits.unique hnext]
  exact Relation.TransGen.tail' hback hnext

/-- A name that settles does not wait for itself, not even by way of others. -/
theorem Settles.not_awaits_self (h : schema.Settles inputs name found) :
    ¬ Relation.TransGen (schema.Awaits inputs) name name := by
  intro hcycle
  induction h with
  | given hp hgiven =>
    obtain ⟨_, ⟨_, _, hnone, _⟩, _⟩ := Relation.TransGen.head'_iff.mp hcycle
    rw [hgiven] at hnone
    cases hnone
  | bare hp _ hbare =>
    obtain ⟨_, ⟨_, hq, _, hsource⟩, _⟩ := Relation.TransGen.head'_iff.mp hcycle
    rw [hp] at hq
    cases hq
    rw [hbare] at hsource
    cases hsource
  | idle hp hgiven hsource _ ih => exact ih (transGen_source ⟨_, hp, hgiven, hsource⟩ hcycle)
  | derived hp hgiven hsource _ _ _ ih => exact ih (transGen_source ⟨_, hp, hgiven, hsource⟩ hcycle)

end Schema

end ContainerCommand
