import ContainerCommand.Proofs.Parameter.Soundness
import ContainerCommand.Proofs.Success
import ContainerCommand.Resolution.Basic

/-! What resolving one parameter finds.

`Parameter.Resolves` lists the ways in which a parameter is resolved from its input and
from what is known of the others: as its input, as a name derived from its source, or as
nothing, because it has no source or the source has no value. Resolution finds exactly
that (`resolve_eq_ok_iff`), and what it finds fits the parameter (`Resolves.fits`). It fails at a
value that does not fit or has no text (`invalidValue_of_resolve`). -/
namespace ContainerCommand

/-- The error is about a value. -/
def CompileError.IsInvalidValue (e : CompileError) : Prop :=
  ∃ name fault, e = .invalidValue name fault

namespace Parameter

variable {p : Parameter}

theorem check_eq_ok_iff {value : Value} {u : Unit} :
    p.check value = .ok u ↔ p.kind.accepts value = true := by
  unfold check
  split <;> simp_all

theorem derive_eq_ok_iff {source : String} {template : Template.Name} {value name : Value} :
    p.derive source template value = .ok name ↔
      ∃ text, value.sourceText? = some text ∧ name = .text (template.apply (pathStem text)) := by
  unfold derive
  cases value.sourceText? with
  | none => simp
  | some text => simp [eq_comm]

/-- What the resolution of a parameter finds. -/
inductive Resolves (p : Parameter) (given : Option Value) (known : Resolution) :
    Option (Value × Origin) → Prop
  | given {value} : given = some value → p.kind.accepts value = true →
      Resolves p given known (some (value, .explicit))
  | bare : given = none → p.nameSource = none → Resolves p given known none
  | idle {source} : given = none → p.nameSource = some source → known.value? source = none →
      Resolves p given known none
  | derived {source template value text} : given = none → p.nameSource = some source →
      p.nameTemplate = some template → known.value? source = some value →
      value.sourceText? = some text → p.kind.isSwitch = false →
      Resolves p given known (some (.text (template.apply (pathStem text)), .derived))

theorem Resolves.of_resolve (hp : p.Sound) {given : Option Value} {known : Resolution}
    {found : Option (Value × Origin)} (h : p.resolve given known = .ok found) :
    p.Resolves given known found := by
  unfold resolve at h
  cases given with
  | some value =>
    simp only [bind_eq_ok_iff, check_eq_ok_iff, pure_eq_ok_iff] at h
    obtain ⟨_, haccepts, rfl⟩ := h
    exact .given rfl haccepts
  | none =>
    cases hsource : p.nameSource with
    | none =>
      simp only [hsource, pure_eq_ok_iff] at h
      exact h ▸ .bare rfl hsource
    | some source =>
      obtain ⟨template, htemplate⟩ := hp.exists_template hsource
      cases hvalue : known.value? source with
      | none =>
        simp only [hsource, htemplate, hvalue, pure_eq_ok_iff] at h
        exact h ▸ .idle rfl hsource hvalue
      | some value =>
        simp only [hsource, htemplate, hvalue, bind_eq_ok_iff, derive_eq_ok_iff, check_eq_ok_iff,
          pure_eq_ok_iff] at h
        obtain ⟨_, ⟨text, htext, rfl⟩, _, haccepts, rfl⟩ := h
        rw [Kind.accepts_text, Bool.not_eq_true'] at haccepts
        exact .derived rfl hsource htemplate hvalue htext haccepts

theorem resolve_eq_ok_iff (hp : p.Sound) {given : Option Value} {known : Resolution}
    {found : Option (Value × Origin)} :
    p.resolve given known = .ok found ↔ p.Resolves given known found := by
  refine ⟨.of_resolve hp, fun h => ?_⟩
  unfold resolve
  cases h with
  | given hgiven haccepts =>
    simp only [hgiven, bind_eq_ok_iff, check_eq_ok_iff, pure_eq_ok_iff]
    exact ⟨(), haccepts, trivial⟩
  | bare hgiven hsource =>
    simp only [hgiven, hsource]
    rfl
  | @idle source hgiven hsource hvalue =>
    obtain ⟨template, htemplate⟩ := hp.exists_template hsource
    simp only [hgiven, hsource, htemplate, hvalue]
    rfl
  | derived hgiven hsource htemplate hvalue htext hswitch =>
    simp only [hgiven, hsource, htemplate, hvalue, bind_eq_ok_iff, derive_eq_ok_iff,
      check_eq_ok_iff, pure_eq_ok_iff]
    exact ⟨_, ⟨_, htext, rfl⟩, (), by rw [Kind.accepts_text, hswitch]; rfl, rfl⟩

/-- What is found fits the parameter. -/
theorem Resolves.fits {known : Resolution} {given : Option Value}
    {value : Value} {origin : Origin} (h : p.Resolves given known (some (value, origin))) :
    p.kind.accepts value = true := by
  cases h with
  | given _ haccepts => exact haccepts
  | derived _ _ _ _ _ hswitch => rw [Kind.accepts_text, hswitch]; rfl

/-! ### When nothing is found -/

variable {e : CompileError}

theorem invalidValue_of_check {value : Value} (h : p.check value = .error e) :
    e.IsInvalidValue := by
  unfold check at h
  split at h <;> cases h
  exact ⟨_, _, rfl⟩

theorem invalidValue_of_derive {source : String} {template : Template.Name} {value : Value}
    (h : p.derive source template value = .error e) : e.IsInvalidValue := by
  unfold derive at h
  split at h <;> cases h
  exact ⟨_, _, rfl⟩

theorem invalidValue_of_resolve {given : Option Value} {known : Resolution}
    (h : p.resolve given known = .error e) : e.IsInvalidValue := by
  unfold resolve at h
  split at h
  · exact invalidValue_of_check (bind_pure_eq_error_iff.mp h)
  · split at h
    · cases h
    · obtain hderive | ⟨_, _, h⟩ := bind_eq_error_iff.mp h
      · exact invalidValue_of_derive hderive
      · exact invalidValue_of_check (bind_pure_eq_error_iff.mp h)
  · cases h

end Parameter

end ContainerCommand
