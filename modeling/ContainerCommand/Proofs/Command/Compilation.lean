import ContainerCommand.Proofs.Command.Buckets
import ContainerCommand.Proofs.Command.Showing
import ContainerCommand.Task.Builtin

/-! What a compilation that succeeds has made.

`Schema.Compiles` lists what it has found on the way: the rules in use, the values of the
parameters and the tokens of each of them (`compile_eq_ok_iff`). The main statement,
`tokens_of_compile`, says what the tokens of the command are: those of the parameters that
are shown, in the order of `Schema.Precedes`, each parameter's tokens together. -/
namespace ContainerCommand

namespace Schema

variable {schema : Schema} {launcher : Launcher} {isOnHost : String → Bool} {inputs : Inputs}
  {rules : List MountRule} {command : Command}

/-- A step for each parameter succeeds with what some function gives for the parameters. -/
theorem mapM_pair_eq_ok_iff {f : Parameter → Except CompileError (List Token)}
    {params : List Parameter} {shown : List (Parameter × List Token)} :
    (params.mapM fun p => do return (p, ← f p)) = .ok shown ↔
      ∃ piece : Parameter → List Token, (∀ p ∈ params, f p = .ok (piece p)) ∧
        shown = params.map fun p => (p, piece p) := by
  have hpairs : ∀ piece : Parameter → List Token, (∀ p ∈ params, f p = .ok (piece p)) →
      (params.mapM fun p => do return (p, ← f p)) = .ok (params.map fun p => (p, piece p)) := by
    intro piece hpiece
    rw [mapM_eq_ok_iff, List.forall₂_map_right_iff, List.forall₂_same]
    intro p hp
    rw [hpiece p hp]
    rfl
  constructor
  · intro h
    have hsteps : ∀ p ∈ params, ∃ tokens, f p = .ok tokens := by
      intro p hp
      obtain ⟨_, hpair⟩ := exists_mapM_eq_ok_iff.mp ⟨shown, h⟩ p hp
      obtain ⟨tokens, htokens, _⟩ := bind_eq_ok_iff.mp hpair
      exact ⟨tokens, htokens⟩
    choose! piece hpiece using hsteps
    exact ⟨piece, hpiece, Except.ok.inj (h.symm.trans (hpairs piece hpiece))⟩
  · rintro ⟨piece, hpiece, rfl⟩
    exact hpairs piece hpiece

/-- Leaving out what gives nothing changes nothing. -/
theorem flatMap_filter_eq {params : List Parameter} {keep : Parameter → Bool}
    {piece : Parameter → List Token} (h : ∀ p ∈ params, keep p = false → piece p = []) :
    (params.filter keep).flatMap piece = params.flatMap piece := by
  induction params with
  | nil => rfl
  | cons p rest ih =>
    rw [List.forall_mem_cons] at h
    rw [List.flatMap_cons, ← ih h.2, List.filter_cons]
    cases hkeep : keep p with
    | true => rw [if_pos rfl, List.flatMap_cons]
    | false => rw [if_neg Bool.false_ne_true, h.1 hkeep, List.nil_append]

/-- What a compilation has found: the rules in use, the tokens of each parameter and the command
made from them. -/
structure Compiles (schema : Schema) (launcher : Launcher) (isOnHost : String → Bool)
    (inputs : Inputs) (rules used : List MountRule) (piece : Parameter → List Token)
    (command : Command) : Prop where
  rules : schema.Uses inputs rules used
  resolved : schema.resolve (schema.effectiveInputs inputs used) = .ok command.resolved
  onHost : ∀ p ∈ schema.params, p.checkHost isOnHost command.resolved = .ok ()
  pieces : ∀ p ∈ schema.params, p.tokens used command.resolved = .ok (piece p)
  launch : command.launch = launcher.words (command.resolved.isTruthy debugName)
  tokens : command.tokens = schema.ordered.flatMap piece

theorem compile_eq_ok_iff :
    schema.compile launcher isOnHost inputs rules = .ok command ↔
      ∃ used piece, schema.Compiles launcher isOnHost inputs rules used piece command := by
  unfold compile
  simp only [bind_eq_ok_iff, pure_eq_ok_iff, effectiveRules_eq_ok_iff, mapM_pair_eq_ok_iff,
    forM_eq_ok_iff]
  constructor
  · rintro ⟨used, hused, resolved, hresolved, _, honHost, _, ⟨piece, hpiece, rfl⟩, rfl⟩
    exact ⟨used, piece, hused, hresolved, honHost, hpiece, rfl,
      arrange_map fun p hp _ => Parameter.param_of_mem_tokens (hpiece p hp)⟩
  · rintro ⟨used, piece, hused, hresolved, honHost, hpiece, hlaunch, htokens⟩
    refine ⟨used, hused, _, hresolved, (), honHost, _, ⟨piece, hpiece, rfl⟩, ?_⟩
    rw [arrange_map fun p hp _ => Parameter.param_of_mem_tokens (hpiece p hp), ← htokens, ← hlaunch]

namespace Compiles

variable {used : List MountRule} {piece : Parameter → List Token}

/-- What is not shown has no tokens, so the command has those of what is shown. -/
theorem tokens_eq_flatten
    (h : schema.Compiles launcher isOnHost inputs rules used piece command) :
    command.tokens =
      ((schema.ordered.filter (·.isShownIn command.resolved)).map piece).flatten := by
  rw [h.tokens, ← List.flatMap_def]
  refine (flatMap_filter_eq fun p hp hshown => ?_).symm
  have htokens := h.pieces p (ordered_perm.mem_iff.mp hp)
  rw [Parameter.tokens_eq_nil hshown] at htokens
  exact (Except.ok.inj htokens).symm

end Compiles

/-- **The tokens of a command are those of the parameters that are shown**, parameter after
parameter in the order of the schema: none is lost, repeated or mixed with another's. -/
theorem tokens_of_compile
    (h : schema.compile launcher isOnHost inputs rules = .ok command) :
    ∃ used, schema.Uses inputs rules used ∧
      schema.resolve (schema.effectiveInputs inputs used) = .ok command.resolved ∧
      ∃ order pieces,
        order.Perm (schema.params.filter (·.isShownIn command.resolved)) ∧
        order.Pairwise schema.Precedes ∧
        List.Forall₂ (fun p tokens => p.ShowsIn used command.resolved tokens) order pieces ∧
        command.tokens = pieces.flatten := by
  obtain ⟨used, piece, hc⟩ := compile_eq_ok_iff.mp h
  refine ⟨used, hc.rules, hc.resolved, schema.ordered.filter (·.isShownIn command.resolved), _,
    ordered_perm.filter _, pairwise_ordered.filter _, ?_, hc.tokens_eq_flatten⟩
  rw [List.forall₂_map_right_iff, List.forall₂_same]
  intro p hp
  obtain ⟨hmem, hshown⟩ := List.mem_filter.mp hp
  exact (Parameter.tokens_eq_ok_iff hshown).mp (hc.pieces p (ordered_perm.mem_iff.mp hmem))

/-- In the demonstration, the parameter with a position stands before those without. -/
theorem tokens_of_compile_demo :
    let inputs : Inputs := .ofList
      [("myarg", .int 5), ("dwiFile", .text "/data/dwi.nrrd"),
        ("inputSubject", .text "/data/s.vtk"), ("returnParameterFile", .bool true)]
    let rules : List MountRule := [⟨"/data", "/mnt"⟩]
    ∃ command, demo.schema.compile {} (fun _ => true) inputs rules = .ok command ∧
      ∃ used, demo.schema.Uses inputs rules used ∧
        demo.schema.resolve (demo.schema.effectiveInputs inputs used) = .ok command.resolved ∧
        ∃ order pieces,
          order.Perm (demo.schema.params.filter (·.isShownIn command.resolved)) ∧
          order.Pairwise demo.schema.Precedes ∧
          List.Forall₂ (fun p tokens => p.ShowsIn used command.resolved tokens) order pieces ∧
          command.tokens = pieces.flatten := by
  intro inputs rules
  obtain ⟨command, h⟩ : ∃ command,
      demo.schema.compile {} (fun _ => true) inputs rules = .ok command :=
    exists_eq_ok_of_isOk (by decide +kernel)
  exact ⟨command, h, tokens_of_compile h⟩

end Schema

end ContainerCommand
