import ContainerCommand.Proofs.Command.Provenance
import ContainerCommand.Proofs.Resolution.Walk

/-! What one input can change.

A parameter is built from another one if its names are derived from it, directly or by way of others
(`Schema.BuiltFrom`); which parameters have inputs does not matter. An input for one name then leaves
alone what is not built from it: such names settle as before (`Settles.of_agreesBut`), and if what a
parameter requires is not built from it either, its entry and its tokens stay. The main statement is
`compile_of_agreesBut`. -/
namespace ContainerCommand.Schema

variable {schema : Schema} {launcher : Launcher} {isOnHost : String → Bool}
  {inputs other : Inputs} {rules used : List MountRule} {name changed : String}

/-! ### Chains of sources -/

/-- The name is the other one, or its names are derived from what is built from it. -/
def BuiltFrom (schema : Schema) : String → String → Prop :=
  Relation.ReflTransGen schema.DerivesFrom

/-- What a source is built from, the parameter is built from. -/
theorem not_builtFrom_source {p : Parameter} {source : String} (hp : schema.get? name = some p)
    (hsource : p.nameSource = some source) (h : ¬ schema.BuiltFrom name changed) :
    ¬ schema.BuiltFrom source changed :=
  fun hbuilt => h (.head ⟨p, hp, hsource⟩ hbuilt)

/-! ### Values -/

/-- **A name settles as before if it is not built from what has changed.** The induction is along the
chain of its sources. -/
theorem Settles.of_agreesBut {found : Option (Value × Origin)}
    (h : schema.Settles inputs name found) (hagree : inputs.AgreesBut changed other)
    (hfree : ¬ schema.BuiltFrom name changed) : schema.Settles other name found := by
  have hinput : ∀ {name}, ¬ schema.BuiltFrom name changed →
      other.get? name = inputs.get? name := by
    intro name hname
    refine (hagree name ?_).symm
    rintro rfl
    exact hname .refl
  induction h with
  | given hp hgiven => exact .given hp ((hinput hfree).trans hgiven)
  | bare hp hgiven hbare => exact .bare hp ((hinput hfree).trans hgiven) hbare
  | idle hp hgiven hsource _ ih =>
    exact .idle hp ((hinput hfree).trans hgiven) hsource
      (ih (not_builtFrom_source hp hsource hfree))
  | derived hp hgiven hsource htemplate _ htext ih =>
    exact .derived hp ((hinput hfree).trans hgiven) hsource htemplate
      (ih (not_builtFrom_source hp hsource hfree)) htext

namespace Resolves

variable {resolution resolution' : Resolution}

theorem found_eq_of_agreesBut (h : schema.Resolves inputs resolution)
    (h' : schema.Resolves other resolution') (hagree : inputs.AgreesBut changed other)
    (hfree : ¬ schema.BuiltFrom name changed) :
    (resolution'.get? name).map Resolved.found = (resolution.get? name).map Resolved.found := by
  cases hname : schema.contains name with
  | true =>
    obtain ⟨p, hp, rfl⟩ := contains_iff.mp hname
    exact h'.found_eq ((h.settles p hp).of_agreesBut hagree hfree)
  | false =>
    -- What is not declared has no entry on either side.
    have hnone : ∀ {inputs resolution}, schema.Resolves inputs resolution →
        resolution.get? name = none := by
      intro inputs resolution h
      rw [Option.eq_none_iff_forall_ne_some]
      intro r hr
      rw [h.declared name r hr] at hname
      cases hname
    rw [hnone h, hnone h']

/-- A parameter has the same entry if neither it nor what it requires is built from what has
changed. -/
theorem get?_eq_of_agreesBut (h : schema.Resolves inputs resolution)
    (h' : schema.Resolves other resolution') (hagree : inputs.AgreesBut changed other)
    {p : Parameter} (hp : p ∈ schema.params) (hfree : ¬ schema.BuiltFrom p.name changed)
    (hrequires : ∀ required ∈ p.requires, ¬ schema.BuiltFrom required changed) :
    resolution'.get? p.name = resolution.get? p.name := by
  have hfound := h.found_eq_of_agreesBut h' hagree hfree
  have hsuppressed : p.isSuppressedIn resolution' = p.isSuppressedIn resolution := by
    rw [Bool.eq_iff_iff, Parameter.isSuppressedIn, Parameter.isSuppressedIn, List.any_eq_true,
      List.any_eq_true]
    refine exists_congr fun required => and_congr_right fun hrequired => ?_
    have hvalue := congrArg (Option.map Prod.fst)
      (h.found_eq_of_agreesBut h' hagree (hrequires required hrequired))
    rw [Option.map_map, Option.map_map] at hvalue
    rw [Resolution.isTruthy, Resolution.isTruthy]
    exact Eq.to_iff (congrArg (fun value : Option Value => (!value.any Value.isTruthy) = true) hvalue)
  cases hr : resolution.get? p.name with
  | none =>
    rw [hr] at hfound
    exact Option.map_eq_none_iff.mp hfound
  | some r =>
    rw [hr] at hfound
    obtain ⟨r', hr', hsame⟩ := Option.map_eq_some_iff.mp hfound
    have hmark := (h'.suppressed p hp r' hr').trans
      (hsuppressed.trans (h.suppressed p hp r hr).symm)
    obtain ⟨value, origin, isSuppressed⟩ := r
    obtain ⟨value', origin', isSuppressed'⟩ := r'
    obtain ⟨rfl, rfl⟩ := Prod.mk.inj hsame
    cases hmark
    exact hr'

end Resolves

/-! ### Commands -/

theorem effectiveInputs_agreesBut (schema : Schema) (used : List MountRule)
    (hagree : inputs.AgreesBut changed other) :
    (schema.effectiveInputs inputs used).AgreesBut changed (schema.effectiveInputs other used) := by
  intro name hname
  unfold effectiveInputs
  split
  · rw [Table.get?_insert, Table.get?_insert]
    split
    · rfl
    · exact hagree name hname
  · exact hagree name hname

/-- **An input changes nothing but what is built from it and what requires that.** Of two compilations
whose inputs differ at one name that is not the one of the mounts, every parameter that is not built
from the name has the same value from the same origin, or none, in both. If nothing that it requires
is built from the name either, it is suppressed in both or in none, and shows the same tokens. -/
theorem compile_of_agreesBut {command command' : Command} (hchanged : changed ≠ mountsName)
    (hagree : inputs.AgreesBut changed other)
    (h : schema.compile launcher isOnHost inputs rules = .ok command)
    (h' : schema.compile launcher isOnHost other rules = .ok command') :
    ∀ p ∈ schema.params, ¬ schema.BuiltFrom p.name changed →
      (command'.resolved.get? p.name).map Resolved.found =
          (command.resolved.get? p.name).map Resolved.found ∧
        ((∀ required ∈ p.requires, ¬ schema.BuiltFrom required changed) →
          command'.resolved.get? p.name = command.resolved.get? p.name ∧
            command'.tokensOf p.name = command.tokensOf p.name) := by
  intro p hp hfree
  obtain ⟨used, piece, hc⟩ := compile_eq_ok_iff.mp h
  obtain ⟨used', piece', hc'⟩ := compile_eq_ok_iff.mp h'
  obtain rfl : used' = used := by
    have hrules := effectiveRules_eq_ok_iff.mpr hc.rules
    rw [effectiveRules_congr (hagree mountsName hchanged.symm),
      effectiveRules_eq_ok_iff.mpr hc'.rules] at hrules
    exact Except.ok.inj hrules
  have hresolves := resolves_of_resolve hc.resolved
  have hresolves' := resolves_of_resolve hc'.resolved
  have hinputs := effectiveInputs_agreesBut schema used' hagree
  refine ⟨hresolves.found_eq_of_agreesBut hresolves' hinputs hfree, fun hrequires => ?_⟩
  have hentry := hresolves.get?_eq_of_agreesBut hresolves' hinputs hp hfree hrequires
  refine ⟨hentry, ?_⟩
  have htokens : p.tokens used' command'.resolved = p.tokens used' command.resolved :=
    Parameter.tokens_congr (congrArg (Option.map Resolved.marked) hentry)
  rw [hc.pieces p hp, hc'.pieces p hp, Except.ok.injEq] at htokens
  rw [hc.tokensOf_eq hp, hc'.tokensOf_eq hp, htokens]

/-- Another scan gives another report; the mask named after the subject stays and is shown. -/
theorem compile_of_agreesBut_scan :
    let scan : Parameter := { name := "scan", kind := .path, argument := some (.option "-i") }
    let report : Parameter :=
      { name := "report", kind := .path, nameSource := some "scan",
        nameTemplate := some ⟨"", ".log"⟩, argument := some (.option "-o") }
    let subject : Parameter := { name := "subject", kind := .scalar }
    let mask : Parameter :=
      { name := "mask", kind := .path, nameSource := some "subject",
        nameTemplate := some ⟨"mask_", ".nii"⟩, requires := ["subject"],
        argument := some (.option "-m") }
    let schema : Schema := ⟨[report, scan, mask, subject], by decide, by decide⟩
    let inputs : Inputs := .ofList [("scan", .text "a.nii"), ("subject", .int 7)]
    let other : Inputs := .ofList [("subject", .int 7)]
    "scan" ≠ mountsName ∧ inputs.AgreesBut "scan" other ∧
      ¬ schema.BuiltFrom "mask" "scan" ∧ ¬ schema.BuiltFrom "subject" "scan" ∧
      ∃ command command', schema.compile {} (fun _ => true) inputs [] = .ok command ∧
        schema.compile {} (fun _ => true) other [] = .ok command' ∧
        command'.tokensOf "mask" = command.tokensOf "mask" := by
  intro scan report subject mask schema inputs other
  have hagree : inputs.AgreesBut "scan" other := by
    have hinputs : inputs = other.insert "scan" (.text "a.nii") := by decide
    intro name hname
    rw [hinputs, Table.get?_insert, if_neg hname]
  have hderives : ∀ {name source}, schema.DerivesFrom name source →
      name = "report" ∨ name = "mask" ∧ source = "subject" := by
    rintro _ source ⟨p, hp, hsource⟩
    obtain ⟨hmem, rfl⟩ := get?_eq_some_iff.mp hp
    simp only [schema, List.mem_cons, List.not_mem_nil, or_false] at hmem
    rcases hmem with rfl | rfl | rfl | rfl
    · exact .inl rfl
    · cases hsource
    · cases hsource
      exact .inr ⟨rfl, rfl⟩
    · cases hsource
  have hsubject : ¬ schema.BuiltFrom "subject" "scan" := by
    intro hbuilt
    rcases Relation.ReflTransGen.cases_head hbuilt with heq | ⟨_, hhead, _⟩
    · exact absurd heq (by decide)
    · rcases hderives hhead with heq | ⟨heq, _⟩ <;> exact absurd heq (by decide)
  have hmask : ¬ schema.BuiltFrom "mask" "scan" := by
    intro hbuilt
    rcases Relation.ReflTransGen.cases_head hbuilt with heq | ⟨source, hhead, hrest⟩
    · exact absurd heq (by decide)
    · rcases hderives hhead with heq | ⟨_, rfl⟩
      · exact absurd heq (by decide)
      · exact hsubject hrest
  obtain ⟨command, h⟩ : ∃ command, schema.compile {} (fun _ => true) inputs [] = .ok command :=
    exists_eq_ok_of_isOk (by decide +kernel)
  obtain ⟨command', h'⟩ : ∃ command, schema.compile {} (fun _ => true) other [] = .ok command :=
    exists_eq_ok_of_isOk (by decide +kernel)
  have hsame := compile_of_agreesBut (by decide) hagree h h' mask (by simp [schema]) hmask
  refine ⟨by decide, hagree, hmask, hsubject, command, command', h, h', (hsame.2 ?_).2⟩
  intro required hrequired
  rw [List.mem_singleton.mp hrequired]
  exact hsubject

end ContainerCommand.Schema
