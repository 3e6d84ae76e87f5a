import ContainerCommand.Proofs.Command.Compilation
import ContainerCommand.Proofs.Resolution.Walk

/-! When a schema compiles.

A compilation needs inputs that the schema can resolve completely (`Schema.Complete`), all
paths on the host that must be there, and values that can be written in the templates
that show them (`Schema.Compilable`). These conditions speak of the inputs and of what the
names settle as, not of the steps of a compilation, and they are all that it needs
(`exists_compile_iff`). -/
namespace ContainerCommand

namespace Schema

/-- All that the parameter requires is true. -/
def Enables (schema : Schema) (inputs : Inputs) (p : Parameter) : Prop :=
  ∀ required ∈ p.requires, ∃ value origin,
    schema.Settles inputs required (some (value, origin)) ∧ value.isTruthy = true

/-- With the rules in use, the inputs are declared, can be resolved, and leave no mandatory
parameter without a value. -/
structure Complete (schema : Schema) (inputs : Inputs) (used : List MountRule) : Prop
    extends schema.Resolvable (schema.effectiveInputs inputs used) where
  known : ∀ name, inputs.contains name = true → schema.contains name = true
  mandatory : ∀ p ∈ schema.params, p.isMandatory = true →
    ∃ found, schema.Settles (schema.effectiveInputs inputs used) p.name (some found)

/-- With the rules in use, the inputs are complete, what must exist is on the host, and what is
shown can be written. -/
structure Compilable (schema : Schema) (isOnHost : String → Bool) (inputs : Inputs)
    (used : List MountRule) : Prop extends schema.Complete inputs used where
  onHost : ∀ p ∈ schema.params, p.mustExist = true → ∀ value origin,
    schema.Settles (schema.effectiveInputs inputs used) p.name (some (value, origin)) →
      ∀ paths, value.Lists paths → ∀ path ∈ paths, isOnHost path = true
  /-- Each value that goes into the template of an enabled parameter can be written there. -/
  writable : ∀ p ∈ schema.params, ∀ t value origin, p.argument = some t →
    schema.Settles (schema.effectiveInputs inputs used) p.name (some (value, origin)) →
      schema.Enables (schema.effectiveInputs inputs used) p →
        ∀ shown, p.Fills used value shown → t.Takes shown

variable {schema : Schema} {launcher : Launcher} {isOnHost : String → Bool} {inputs : Inputs}
  {rules used : List MountRule}

theorem known_effectiveInputs_iff :
    (∀ name, (schema.effectiveInputs inputs used).contains name = true →
        schema.contains name = true) ↔
      ∀ name, inputs.contains name = true → schema.contains name = true := by
  refine forall_congr' fun name => ?_
  by_cases hname : name = mountsName
  · subst hname
    unfold effectiveInputs
    split
    · rename_i hmounts
      rw [Bool.and_eq_true] at hmounts
      simp [hmounts.2]
    · rfl
  · rw [Table.contains, get?_effectiveInputs_of_ne hname, Table.contains]

theorem exists_resolve_iff_complete :
    (∃ resolution, schema.resolve (schema.effectiveInputs inputs used) = .ok resolution) ↔
      schema.Complete inputs used := by
  rw [exists_resolve_eq_ok_iff, known_effectiveInputs_iff]
  exact ⟨fun ⟨hknown, hresolvable, hmandatory⟩ => ⟨hresolvable, hknown, hmandatory⟩,
    fun h => ⟨h.known, h.toResolvable, h.mandatory⟩⟩

variable {resolution : Resolution}

/-- An entry is suppressed unless all that its parameter requires is true. -/
theorem Resolves.isSuppressed_eq_false_iff (h : schema.Resolves inputs resolution) {p : Parameter}
    (hp : p ∈ schema.params) {r : Resolved} (hr : resolution.get? p.name = some r) :
    r.isSuppressed = false ↔ schema.Enables inputs p := by
  rw [h.suppressed p hp r hr, ← Bool.not_eq_true, isSuppressedIn_iff, Enables]
  push Not
  refine forall_congr' fun required => forall_congr' fun _ => ?_
  constructor
  · rintro ⟨s, hs, htruthy⟩
    exact ⟨s.value, s.origin, h.settles_iff.mpr ⟨s, hs, rfl, rfl⟩, by simpa using htruthy⟩
  · rintro ⟨value, origin, hsettles, htruthy⟩
    obtain ⟨s, hs, rfl, _⟩ := h.settles_iff.mp hsettles
    exact ⟨s, hs, by simpa using htruthy⟩

theorem Resolves.forall_checkHost_iff (h : schema.Resolves inputs resolution) {p : Parameter}
    (hp : p ∈ schema.params) :
    p.checkHost isOnHost resolution = .ok () ↔
      (p.mustExist = true → ∀ value origin, schema.Settles inputs p.name (some (value, origin)) →
        ∀ paths, value.Lists paths → ∀ path ∈ paths, isOnHost path = true) := by
  rw [Parameter.checkHost_eq_ok_iff (Parameter.fault?_eq_none_iff.mp (schema.sound p hp))
    (h.fits p hp)]
  refine imp_congr_right fun _ => ?_
  constructor
  · intro honHost value origin hsettles
    obtain ⟨r, hr, rfl, _⟩ := h.settles_iff.mp hsettles
    exact honHost r hr
  · intro honHost r hr
    exact honHost r.value r.origin (h.settles_iff.mpr ⟨r, hr, rfl, rfl⟩)

theorem Resolves.exists_tokens_iff (h : schema.Resolves inputs resolution) {p : Parameter}
    (hp : p ∈ schema.params) :
    (∃ tokens, p.tokens used resolution = .ok tokens) ↔
      ∀ t value origin, p.argument = some t →
        schema.Settles inputs p.name (some (value, origin)) → schema.Enables inputs p →
          ∀ shown, p.Fills used value shown → t.Takes shown := by
  rw [Parameter.exists_tokens_iff (h.fits p hp)]
  constructor
  · intro htokens t value origin ht hsettles henables
    obtain ⟨r, hr, rfl, _⟩ := h.settles_iff.mp hsettles
    exact htokens r t hr ((h.isSuppressed_eq_false_iff hp hr).mpr henables) ht
  · intro htokens r t hr hsuppressed ht
    exact htokens t r.value r.origin ht (h.settles_iff.mpr ⟨r, hr, rfl, rfl⟩)
      ((h.isSuppressed_eq_false_iff hp hr).mp hsuppressed)

/-- **A schema compiles exactly if**, with the rules in use, the inputs can be resolved completely,
what must exist is on the host, and what is shown can be written. -/
theorem exists_compile_iff :
    (∃ command, schema.compile launcher isOnHost inputs rules = .ok command) ↔
      ∃ used, schema.Uses inputs rules used ∧ schema.Compilable isOnHost inputs used := by
  constructor
  · rintro ⟨command, h⟩
    obtain ⟨used, piece, hc⟩ := compile_eq_ok_iff.mp h
    have hresolves := resolves_of_resolve hc.resolved
    refine ⟨used, hc.rules, exists_resolve_iff_complete.mp ⟨_, hc.resolved⟩, fun p hp => ?_,
      fun p hp => ?_⟩
    · exact (hresolves.forall_checkHost_iff hp).mp (hc.onHost p hp)
    · exact (hresolves.exists_tokens_iff hp).mp ⟨_, hc.pieces p hp⟩
  · rintro ⟨used, hused, h⟩
    obtain ⟨resolution, hresolution⟩ := exists_resolve_iff_complete.mpr h.toComplete
    have hresolves := resolves_of_resolve hresolution
    have htokens : ∀ p ∈ schema.params, ∃ tokens, p.tokens used resolution = .ok tokens :=
      fun p hp => (hresolves.exists_tokens_iff hp).mpr (h.writable p hp)
    choose! piece hpiece using htokens
    let command : Command := {
      launch := launcher.words (resolution.isTruthy debugName)
      tokens := schema.ordered.flatMap piece
      resolved := resolution }
    exact ⟨command, compile_eq_ok_iff.mpr ⟨used, piece, hused, hresolution,
      fun p hp => (hresolves.forall_checkHost_iff hp).mpr (h.onHost p hp), hpiece, rfl, rfl⟩⟩

/-- Complete inputs are not enough: a path can be missing on the host, and a text that is no number
cannot be written as one. -/
theorem not_exists_compile_iff_complete :
    let file : Parameter := { name := "file", kind := .path, mustExist := true }
    let threads : Parameter :=
      { name := "threads", kind := .scalar,
        argument := some ⟨"-t %d", .slotted ["-t"] "" .integer "" [], false⟩ }
    let files : Schema := ⟨[file], by decide, by decide⟩
    let counts : Schema := ⟨[threads], by decide, by decide⟩
    let missing : Inputs := .ofList [("file", .text "/data/missing")]
    let many : Inputs := .ofList [("threads", .text "many")]
    ¬ ((∃ command, files.compile {} (fun _ => false) missing [] = .ok command) ↔
        ∃ used, files.Uses missing [] used ∧ files.Complete missing used) ∧
      ¬ ((∃ command, counts.compile {} (fun _ => true) many [] = .ok command) ↔
        ∃ used, counts.Uses many [] used ∧ counts.Complete many used) := by
  intro file threads files counts missing many
  constructor
  · intro h
    obtain ⟨command, hcommand⟩ := h.mpr ⟨[], .undeclared rfl,
      exists_resolve_iff_complete.mp (exists_eq_ok_of_isOk (by decide +kernel))⟩
    have herror : files.compile {} (fun _ => false) missing [] =
      .error (.hostPathNotFound "file" "/data/missing") := by decide +kernel
    rw [hcommand] at herror
    cases herror
  · intro h
    obtain ⟨command, hcommand⟩ := h.mpr ⟨[], .undeclared rfl,
      exists_resolve_iff_complete.mp (exists_eq_ok_of_isOk (by decide +kernel))⟩
    have herror : counts.compile {} (fun _ => true) many [] =
      .error (.invalidValue "threads" (.notInteger "many")) := by decide +kernel
    rw [hcommand] at herror
    cases herror

end Schema

end ContainerCommand
