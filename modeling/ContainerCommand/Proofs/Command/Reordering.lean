import ContainerCommand.Proofs.Command.Provenance
import ContainerCommand.Proofs.Resolution.Equations

/-! The order in which parameters are declared.

The walk visits the parameters in the order of their declaration, but what the names settle as says
nothing of that order, so every order gives the same values (`resolve_of_perm`) and each parameter
the same tokens (`Compiles.of_perm`). What is left of the order of declaration is where the tokens of
parameters at one position stand (`ordered_eq_of_perm`). The main statement, `compile_of_perm`, puts
these together. -/
namespace ContainerCommand.Schema

variable {schema other : Schema} {launcher : Launcher} {isOnHost : String → Bool} {inputs : Inputs}
  {rules used : List MountRule} {piece : Parameter → List Token} {command : Command}

/-! ### Values -/

theorem Settles.of_perm (hperm : schema.params.Perm other.params) {name : String}
    {found : Option (Value × Origin)} (h : schema.Settles inputs name found) :
    other.Settles inputs name found := by
  have hget := get?_eq_of_perm hperm
  induction h with
  | given hp hgiven => exact .given (hget _ ▸ hp) hgiven
  | bare hp hgiven hbare => exact .bare (hget _ ▸ hp) hgiven hbare
  | idle hp hgiven hsource _ ih => exact .idle (hget _ ▸ hp) hgiven hsource ih
  | derived hp hgiven hsource htemplate _ htext ih =>
    exact .derived (hget _ ▸ hp) hgiven hsource htemplate ih htext

theorem Resolves.of_perm (hperm : schema.params.Perm other.params) {resolution : Resolution}
    (h : schema.Resolves inputs resolution) : other.Resolves inputs resolution where
  declared name r hr := contains_eq_of_perm hperm name ▸ h.declared name r hr
  settles p hp := (h.settles p (hperm.mem_iff.mpr hp)).of_perm hperm
  fits p hp := h.fits p (hperm.mem_iff.mpr hp)
  suppressed p hp := h.suppressed p (hperm.mem_iff.mpr hp)
  mandatory p hp := h.mandatory p (hperm.mem_iff.mpr hp)

/-- **Every order of declaration gives the same values**: no visit depends on those before it. -/
theorem resolve_of_perm (hperm : schema.params.Perm other.params) {resolution : Resolution}
    (h : schema.resolve inputs = .ok resolution) : other.resolve inputs = .ok resolution := by
  rw [resolve_eq_ok_iff_resolves, undeclared?_eq_none_iff] at h ⊢
  refine ⟨fun name hname => ?_, h.2.of_perm hperm⟩
  rw [← contains_eq_of_perm hperm]
  exact h.1 name hname

/-! ### Tokens -/

theorem Uses.of_perm (hperm : schema.params.Perm other.params) (h : schema.Uses inputs rules used) :
    other.Uses inputs rules used := by
  have hcontains := contains_eq_of_perm hperm mountsName
  cases h with
  | given hrules => exact .given hrules
  | undeclared hmounts => exact .undeclared (hcontains ▸ hmounts)
  | bare hvalue => exact .bare hvalue
  | written hrules hmounts hvalue hlists hentries =>
    exact .written hrules (hcontains ▸ hmounts) hvalue hlists hentries

/-- Each parameter shows the same tokens, and they are put in the order of the other schema. -/
theorem Compiles.of_perm (hperm : schema.params.Perm other.params)
    (h : schema.Compiles launcher isOnHost inputs rules used piece command) :
    other.Compiles launcher isOnHost inputs rules used piece
      { command with tokens := other.ordered.flatMap piece } where
  rules := h.rules.of_perm hperm
  resolved := by
    rw [effectiveInputs, ← contains_eq_of_perm hperm]
    exact resolve_of_perm hperm h.resolved
  onHost p hp := h.onHost p (hperm.mem_iff.mpr hp)
  pieces p hp := h.pieces p (hperm.mem_iff.mpr hp)
  launch := h.launch
  tokens := rfl

/-- No two parameters are declared at one position. -/
def DistinctPositions (schema : Schema) : Prop :=
  (schema.params.filterMap Parameter.position).Nodup

/-- Without parameters at one position, nothing is ordered by its declaration. -/
theorem ordered_eq_of_perm (hperm : schema.params.Perm other.params)
    (hpositions : schema.DistinctPositions) : other.ordered = schema.ordered := by
  have hdistinct : (other.params.filterMap Parameter.position).Nodup :=
    (hperm.filterMap _).nodup_iff.mp hpositions
  refine eq_ordered (ordered_perm.trans hperm.symm) (pairwise_ordered.imp fun {p q} hprecedes => ?_)
  cases hprecedes with
  | group hrank => exact .group hrank
  | position hgroup hm hn hlt => exact .position hgroup hm hn hlt
  | name hm hn hlt => exact .name hm hn hlt
  | declared hm hn hfirst =>
    have hapart := List.pairwise_iff_forall_sublist.mp (List.pairwise_filterMap.mp hdistinct) hfirst
    exact absurd rfl (hapart _ hm _ hn)

/-! ### Commands -/

/-- What two commands have in common that differ at most in the order of their tokens: one
parameter's tokens stand in the same order. -/
structure SameUpToOrder (command other : Command) : Prop where
  launch : other.launch = command.launch
  resolved : other.resolved = command.resolved
  tokensOf : ∀ name, other.tokensOf name = command.tokensOf name

/-- A schema that declares the same parameters compiles too. -/
theorem exists_compile_of_perm (hperm : schema.params.Perm other.params)
    (h : schema.compile launcher isOnHost inputs rules = .ok command) :
    ∃ command', other.compile launcher isOnHost inputs rules = .ok command' ∧
      SameUpToOrder command command' ∧ (schema.DistinctPositions → command' = command) := by
  obtain ⟨used, piece, hc⟩ := compile_eq_ok_iff.mp h
  have hother := hc.of_perm hperm
  refine ⟨_, compile_eq_ok_iff.mpr ⟨used, piece, hother⟩, ⟨rfl, rfl, fun name => ?_⟩,
    fun hpositions => ?_⟩
  · cases hname : schema.contains name with
    | false =>
      rw [hc.tokensOf_eq_nil hname, hother.tokensOf_eq_nil (contains_eq_of_perm hperm name ▸ hname)]
    | true =>
      obtain ⟨p, hp, rfl⟩ := contains_iff.mp hname
      rw [hc.tokensOf_eq hp, hother.tokensOf_eq (hperm.mem_iff.mp hp)]
  · rw [ordered_eq_of_perm hperm hpositions, ← hc.tokens]

/-- **The order of declaration decides nothing but the order of tokens at one position.** Schemas
that declare the same parameters compile alike, to commands that agree in all but that. -/
theorem compile_of_perm (hperm : schema.params.Perm other.params) (launcher : Launcher)
    (isOnHost : String → Bool) (inputs : Inputs) (rules : List MountRule) :
    ((∃ command, schema.compile launcher isOnHost inputs rules = .ok command) ↔
        ∃ command, other.compile launcher isOnHost inputs rules = .ok command) ∧
      ∀ command command', schema.compile launcher isOnHost inputs rules = .ok command →
        other.compile launcher isOnHost inputs rules = .ok command' →
          SameUpToOrder command command' ∧
            (schema.DistinctPositions → command' = command) := by
  refine ⟨⟨fun ⟨_, h⟩ => ?_, fun ⟨_, h⟩ => ?_⟩, fun command command' h h' => ?_⟩
  · obtain ⟨command', h', _⟩ := exists_compile_of_perm hperm h
    exact ⟨command', h'⟩
  · obtain ⟨command', h', _⟩ := exists_compile_of_perm hperm.symm h
    exact ⟨command', h'⟩
  · obtain ⟨_, hother, hsame⟩ := exists_compile_of_perm hperm h
    rw [h', Except.ok.injEq] at hother
    exact hother ▸ hsame

/-- A derived parameter is declared before its source and behind it. -/
theorem compile_of_perm_derived :
    let file : Parameter :=
      { name := "file", kind := .path, position := some 1,
        argument := some ⟨"%s", .slotted [] "" .text "" [], false⟩ }
    let report : Parameter :=
      { name := "report", kind := .path, position := some 0,
        nameSource := some "file", nameTemplate := some ⟨"", ".log"⟩,
        argument := some ⟨"-o %s", .slotted ["-o"] "" .text "" [], false⟩ }
    let schema : Schema := ⟨[report, file], by decide, by decide⟩
    let other : Schema := ⟨[file, report], by decide, by decide⟩
    let inputs : Inputs := .ofList [("file", .text "/data/scan.nii")]
    schema.params.Perm other.params ∧ schema.DistinctPositions ∧
      ∃ command, schema.compile {} (fun _ => true) inputs [] = .ok command ∧
        other.compile {} (fun _ => true) inputs [] = .ok command := by
  intro file report schema other inputs
  have hperm : schema.params.Perm other.params := .swap ..
  have hpositions : schema.DistinctPositions := by
    unfold DistinctPositions
    decide
  obtain ⟨command, h⟩ : ∃ command, schema.compile {} (fun _ => true) inputs [] = .ok command :=
    exists_eq_ok_of_isOk (by decide +kernel)
  obtain ⟨hiff, hsame⟩ := compile_of_perm hperm {} (fun _ => true) inputs []
  obtain ⟨command', h'⟩ := hiff.mp ⟨command, h⟩
  exact ⟨hperm, hpositions, command, h, (hsame _ _ h h').2 hpositions ▸ h'⟩

end ContainerCommand.Schema
