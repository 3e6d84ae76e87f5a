import ContainerCommand.Proofs.Command.Compilation
import ContainerCommand.Proofs.Resolution.Single

/-! The two stages of a compilation.

A compilation first finds the rules in use and the values of the parameters and looks for paths on
the host (`Schema.prepare`), and then shows the values (`Schema.assemble`). The second stage asks
nothing of the host and of the inputs, and it fails only at a value that a template cannot take
(`invalidValue_of_assemble`). -/
namespace ContainerCommand

namespace Parameter

variable {p : Parameter} {rules : List MountRule} {t : Template.Argument} {value : Value}
  {e : CompileError}

theorem invalidValue_of_elements (h : p.elements value = .error e) : e.IsInvalidValue := by
  cases value with
  | list | text => cases h
  | _ => cases h; exact ⟨_, _, rfl⟩

theorem invalidValue_of_token (h : p.token t value = .error e) : e.IsInvalidValue := by
  have hfill := bind_pure_eq_error_iff.mp h
  unfold Template.Argument.fill at hfill
  split at hfill
  · cases hfill
  · split at hfill
    · cases hfill
    · cases hfill
      exact ⟨_, _, rfl⟩

theorem invalidValue_of_emit (h : p.emit rules t value = .error e) : e.IsInvalidValue := by
  unfold emit at h
  cases hkind : p.kind with
  | flag | boolean => simp [hkind] at h
  | scalar =>
    simp only [hkind] at h
    exact invalidValue_of_token (bind_pure_eq_error_iff.mp h)
  | path =>
    simp only [hkind] at h
    split at h
    · exact invalidValue_of_token (bind_pure_eq_error_iff.mp h)
    · cases h
      exact ⟨_, _, rfl⟩
  | pathList =>
    simp only [hkind] at h
    obtain h | ⟨_, _, h⟩ := bind_eq_error_iff.mp h
    · exact invalidValue_of_elements h
    · obtain ⟨_, _, h⟩ := exists_of_mapM_eq_error h
      exact invalidValue_of_token h

theorem invalidValue_of_tokens {resolution : Resolution}
    (h : p.tokens rules resolution = .error e) : e.IsInvalidValue := by
  unfold Parameter.tokens at h
  split at h
  · split at h
    · cases h
    · exact invalidValue_of_emit h
  · cases h

end Parameter

namespace Schema

variable {schema : Schema} {launcher : Launcher} {isOnHost : String → Bool} {inputs : Inputs}
  {rules used : List MountRule} {resolution : Resolution}

/-- The rules in use and the values of the parameters; those that must exist are on the host. -/
def prepare (schema : Schema) (isOnHost : String → Bool) (inputs : Inputs)
    (rules : List MountRule) : Except CompileError (List MountRule × Resolution) := do
  let used ← schema.effectiveRules inputs rules
  let resolved ← schema.resolve (schema.effectiveInputs inputs used)
  schema.params.forM fun p => p.checkHost isOnHost resolved
  return (used, resolved)

/-- The command that shows the values of the parameters under the rules in use. -/
def assemble (schema : Schema) (launcher : Launcher) (used : List MountRule)
    (resolved : Resolution) : Except CompileError Command := do
  let shown ← schema.params.mapM fun p => return (p, ← p.tokens used resolved)
  return {
    launch := launcher.words (resolved.isTruthy debugName)
    tokens := arrange shown
    resolved }

theorem compile_eq_bind :
    schema.compile launcher isOnHost inputs rules =
      schema.prepare isOnHost inputs rules >>= fun (used, resolved) =>
        schema.assemble launcher used resolved := by
  simp only [compile, prepare, assemble, bind_assoc, pure_bind]

/-- What is shown fails only at a value. -/
theorem invalidValue_of_assemble {e : CompileError}
    (h : schema.assemble launcher used resolution = .error e) : e.IsInvalidValue := by
  obtain ⟨p, _, htokens⟩ := exists_of_mapM_eq_error (bind_pure_eq_error_iff.mp h)
  exact Parameter.invalidValue_of_tokens (bind_pure_eq_error_iff.mp htokens)

/-- Any other error is met before anything is shown. -/
theorem compile_eq_error_iff {e : CompileError} (he : ¬ e.IsInvalidValue) :
    schema.compile launcher isOnHost inputs rules = .error e ↔
      schema.prepare isOnHost inputs rules = .error e := by
  rw [compile_eq_bind, bind_eq_error_iff]
  constructor
  · rintro (h | ⟨_, _, h⟩)
    · exact h
    · exact absurd (invalidValue_of_assemble h) he
  · exact .inl

end Schema

end ContainerCommand
