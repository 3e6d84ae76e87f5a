import ContainerCommand.Proofs.Command.Stages
import ContainerCommand.Proofs.Resolution.Requirements

/-! What requirements do to a command.

A suppressed parameter keeps its value: names are derived from it, it need not be missing although it
is mandatory, its paths are looked for on the host, and it counts by its value where it is required
itself. So a command is the one that the schema without requirements compiles to, less the tokens of
the parameters that are suppressed (`Compiles.of_unconditional`), and requirements bring no error
about (`prepare_eq_map_unconditional`). The main statement is `compile_of_unconditional`. -/
namespace ContainerCommand

namespace Schema

variable {schema : Schema} {launcher : Launcher} {isOnHost : String → Bool} {inputs : Inputs}
  {rules used : List MountRule} {piece : Parameter → List Token} {base : Command}

/-! ### Values -/

@[simp] theorem value?_markSuppressed (schema : Schema) (resolution : Resolution) (name : String) :
    (schema.markSuppressed resolution).value? name = resolution.value? name := by
  rw [markSuppressed, Resolution.value?_map]
  exact fun _ _ => rfl

@[simp] theorem isTruthy_markSuppressed (schema : Schema) (resolution : Resolution)
    (name : String) :
    (schema.markSuppressed resolution).isTruthy name = resolution.isTruthy name := by
  rw [markSuppressed, Resolution.isTruthy_map]
  exact fun _ _ => rfl

/-- A path is looked for whether or not it is shown. -/
theorem checkHost_markSuppressed (schema : Schema) (p : Parameter) (resolution : Resolution) :
    p.checkHost isOnHost (schema.markSuppressed resolution) =
      p.unconditional.checkHost isOnHost resolution := by
  rw [Parameter.checkHost, value?_markSuppressed]
  rfl

/-! ### Before anything is shown -/

theorem effectiveRules_unconditional (schema : Schema) (inputs : Inputs)
    (rules : List MountRule) :
    schema.unconditional.effectiveRules inputs rules = schema.effectiveRules inputs rules := by
  rw [effectiveRules, contains_unconditional, effectiveRules]

theorem effectiveInputs_unconditional (schema : Schema) (inputs : Inputs)
    (used : List MountRule) :
    schema.unconditional.effectiveInputs inputs used = schema.effectiveInputs inputs used := by
  rw [effectiveInputs, contains_unconditional, effectiveInputs]

/-- The rules and values are found as without requirements, or the same error is. -/
theorem prepare_eq_map_unconditional :
    schema.prepare isOnHost inputs rules =
      (schema.unconditional.prepare isOnHost inputs rules).map fun (used, resolved) =>
        (used, schema.markSuppressed resolved) := by
  simp only [prepare, effectiveRules_unconditional, effectiveInputs_unconditional,
    resolve_eq_map_unconditional schema]
  cases schema.effectiveRules inputs rules with
  | error e => rfl
  | ok used =>
    simp only [bind, Except.bind]
    cases schema.unconditional.resolve (schema.effectiveInputs inputs used) with
    | error e => rfl
    | ok resolved =>
      have hcheck : (schema.unconditional.params.forM fun p => p.checkHost isOnHost resolved) =
          schema.params.forM fun p =>
            p.checkHost isOnHost (schema.markSuppressed resolved) := by
        simp only [checkHost_markSuppressed]
        exact List.forM_map
      simp only [hcheck, Except.map]
      cases schema.params.forM fun p =>
          p.checkHost isOnHost (schema.markSuppressed resolved) with
      | error e => rfl
      | ok u => rfl

/-! ### Tokens -/

theorem ordered_unconditional (schema : Schema) :
    schema.unconditional.ordered = schema.ordered.map Parameter.unconditional := by
  have hmap : schema.ordered.map Parameter.unconditional =
      (schema.params.map Parameter.unconditional).mergeSort Parameter.precedes :=
    List.map_mergeSort fun _ _ _ _ => rfl
  exact hmap.symm

/-- A parameter that is not suppressed shows what it shows without requirements. -/
theorem tokens_markSuppressed {p : Parameter} {resolution : Resolution}
    (hp : p ∈ schema.params)
    (hfree : ∀ r, resolution.get? p.name = some r → r.isSuppressed = false)
    (h : (schema.markSuppressed resolution).suppresses p.name = false) :
    p.tokens used (schema.markSuppressed resolution) = p.unconditional.tokens used resolution := by
  refine Parameter.tokens_congr ?_
  unfold Resolution.suppresses at h
  rw [get?_markSuppressed hp] at h ⊢
  cases hr : resolution.get? p.name with
  | none => rfl
  | some r =>
    rw [hr, Option.map_some, Option.any_some] at h
    rw [Option.map_some, Option.map_some, Option.map_some, Resolved.marked, Resolved.marked,
      hfree r hr, h]

/-- The command less the tokens of what the schema suppresses. -/
def suppress (schema : Schema) (base : Command) : Command where
  launch := base.launch
  tokens := base.tokens.filter fun token =>
    !(schema.markSuppressed base.resolved).suppresses token.param
  resolved := schema.markSuppressed base.resolved

/-- A schema compiles to what it compiles to without requirements, less what it suppresses. -/
theorem Compiles.of_unconditional
    (h : schema.unconditional.Compiles launcher isOnHost inputs rules used piece base) :
    schema.Compiles launcher isOnHost inputs rules used
      (fun p => if (schema.suppress base).resolved.suppresses p.name then []
        else piece p.unconditional)
      (schema.suppress base) := by
  have hmem : ∀ p ∈ schema.params, p.unconditional ∈ schema.unconditional.params :=
    fun p hp => List.mem_map_of_mem hp
  have hresolved := h.resolved
  rw [effectiveInputs_unconditional] at hresolved
  refine ⟨?_, ?_, fun p hp => ?_, fun p hp => ?_, ?_, ?_⟩
  · rw [← effectiveRules_eq_ok_iff, ← effectiveRules_unconditional, effectiveRules_eq_ok_iff]
    exact h.rules
  · rw [resolve_eq_map_unconditional, hresolved]
    rfl
  · exact (schema.checkHost_markSuppressed p base.resolved).trans (h.onHost _ (hmem p hp))
  · cases hsuppresses : (schema.suppress base).resolved.suppresses p.name with
    | true => exact Parameter.tokens_of_suppresses hsuppresses
    | false =>
      have hfree : ∀ r, base.resolved.get? p.name = some r → r.isSuppressed = false :=
        fun r hr => ((resolves_of_resolve h.resolved).suppressed _ (hmem p hp) r hr).trans
          (p.isSuppressedIn_unconditional base.resolved)
      exact (tokens_markSuppressed hp hfree hsuppresses).trans (h.pieces _ (hmem p hp))
  · rw [suppress, h.launch, isTruthy_markSuppressed]
  · show base.tokens.filter _ = _
    rw [h.tokens, ordered_unconditional, List.flatMap_map, List.filter_flatMap]
    refine List.flatMap_congr fun p hp => ?_
    have hparam : ∀ token ∈ piece p.unconditional, token.param = p.name := fun token htoken =>
      Parameter.param_of_mem_tokens (h.pieces _ (hmem p (ordered_perm.mem_iff.mp hp))) htoken
    have hkeep : ∀ token ∈ piece p.unconditional,
        (!(schema.markSuppressed base.resolved).suppresses token.param) =
          !(schema.suppress base).resolved.suppresses p.name :=
      fun token htoken => by rw [hparam token htoken, suppress]
    rw [List.filter_congr hkeep]
    cases (schema.suppress base).resolved.suppresses p.name with
    | true => exact List.filter_false _
    | false => exact List.filter_true _

/-! ### The main statement -/

/-- **Requirements only remove tokens.** Where a schema without its requirements compiles, the schema
compiles to the same command less the tokens of what is suppressed; the resolved names, values and
origins are the same, and what is suppressed is said by the values alone. An error that is not about
a value is met with requirements exactly if it is met without. -/
theorem compile_of_unconditional (schema : Schema) (launcher : Launcher)
    (isOnHost : String → Bool) (inputs : Inputs) (rules : List MountRule) :
    (∀ base, schema.unconditional.compile launcher isOnHost inputs rules = .ok base →
        ∃ command, schema.compile launcher isOnHost inputs rules = .ok command ∧
          command.launch = base.launch ∧
          (∀ name, (command.resolved.get? name).map Resolved.found =
            (base.resolved.get? name).map Resolved.found) ∧
          (∀ p ∈ schema.params, ∀ r, command.resolved.get? p.name = some r →
            (r.isSuppressed = true ↔
              ∃ required ∈ p.requires, base.resolved.isTruthy required = false)) ∧
          command.tokens =
            base.tokens.filter fun token => !command.resolved.suppresses token.param) ∧
      ∀ e : CompileError, ¬ e.IsInvalidValue →
        (schema.compile launcher isOnHost inputs rules = .error e ↔
          schema.unconditional.compile launcher isOnHost inputs rules = .error e) := by
  refine ⟨fun base h => ?_, fun e he => ?_⟩
  · obtain ⟨used, piece, hc⟩ := compile_eq_ok_iff.mp h
    have hcommand := hc.of_unconditional
    refine ⟨_, compile_eq_ok_iff.mpr ⟨used, _, hcommand⟩, rfl,
      map_found_markSuppressed base.resolved, fun p hp r hr => ?_, rfl⟩
    rw [(resolves_of_resolve hcommand.resolved).suppressed p hp r hr, suppress,
      isSuppressedIn_markSuppressed, Parameter.isSuppressedIn, List.any_eq_true]
    simp only [Bool.not_eq_true']
  · rw [compile_eq_error_iff he, compile_eq_error_iff he, prepare_eq_map_unconditional]
    cases schema.unconditional.prepare isOnHost inputs rules with
    | error e' => rfl
    | ok prepared => exact iff_of_false (fun h => by cases h) fun h => by cases h

/-- A scan is suppressed although it is mandatory; a report named after it, which requires it, is
not, and the scan is still looked for on the host. -/
theorem compile_of_unconditional_scan :
    let verbose : Parameter := { name := "verbose", kind := .boolean }
    let scan : Parameter :=
      { name := "scan", kind := .path, isMandatory := true, mustExist := true,
        requires := ["verbose"],
        argument := some ⟨"-i %s", .slotted ["-i"] "" .text "" [], false⟩ }
    let report : Parameter :=
      { name := "report", kind := .path, nameSource := some "scan",
        nameTemplate := some ⟨"", ".log"⟩, requires := ["scan"],
        argument := some ⟨"-o %s", .slotted ["-o"] "" .text "" [], false⟩ }
    let schema : Schema := ⟨[verbose, scan, report], by decide, by decide⟩
    let inputs : Inputs := .ofList [("scan", .text "/data/a.nii"), ("verbose", .bool false)]
    (∃ base, schema.unconditional.compile {} (fun _ => true) inputs [] = .ok base ∧
      ∃ command, schema.compile {} (fun _ => true) inputs [] = .ok command ∧
        command.tokens =
          base.tokens.filter fun token => !command.resolved.suppresses token.param) ∧
      schema.compile {} (fun _ => false) inputs [] =
        .error (.hostPathNotFound "scan" "/data/a.nii") := by
  intro verbose scan report schema inputs
  obtain ⟨base, h⟩ : ∃ base,
      schema.unconditional.compile {} (fun _ => true) inputs [] = .ok base :=
    exists_eq_ok_of_isOk (by decide +kernel)
  obtain ⟨command, hcommand, _, _, _, htokens⟩ :=
    (compile_of_unconditional schema {} (fun _ => true) inputs []).1 base h
  refine ⟨⟨base, h, command, hcommand, htokens⟩, ?_⟩
  refine ((compile_of_unconditional schema {} (fun _ => false) inputs []).2 _ ?_).mpr
    (by decide +kernel)
  rintro ⟨_, _, he⟩
  cases he

end Schema

end ContainerCommand
