import ContainerCommand.Parameter.Basic
import Mathlib.Tactic.SplitIfs

/-! What holds of a parameter that does not contradict itself.

The parameters of a schema are free of faults. `fault?_eq_none_iff` says what that means:
the parameter is named, a derivation has both its source and its template, the template
has a placeholder exactly if the kind takes more than a switch does, only paths must
exist, and the parameter does not require itself. -/
namespace ContainerCommand

namespace Kind

/-- A text fits every kind but the switches. -/
theorem accepts_text (kind : Kind) (s : String) : kind.accepts (.text s) = !kind.isSwitch := by
  cases kind <;> rfl

end Kind

namespace Parameter

/-- The template of a parameter fits its kind. -/
structure ArgumentFits (kind : Kind) (t : Template.Argument) : Prop where
  placeholder : t.hasPlaceholder = !kind.isSwitch
  repeated : t.isRepeated = true → kind = .pathList

theorem argumentFault?_eq_none_iff {p : Parameter} :
    p.argumentFault? = none ↔ ∀ t, p.argument = some t → ArgumentFits p.kind t := by
  cases harg : p.argument with
  | none => simp [argumentFault?, harg]
  | some t =>
    simp only [argumentFault?, harg, Option.some.injEq, forall_eq']
    constructor
    · intro h
      split_ifs at h with hforbidden hmissing hrepeated
      refine ⟨?_, fun hr => ?_⟩
      · cases hs : p.kind.isSwitch <;> cases ht : t.hasPlaceholder <;> simp_all
      · simpa [hr] using hrepeated
    · rintro ⟨hplaceholder, hrepeated⟩
      rw [if_neg (by cases hs : p.kind.isSwitch <;> simp [hplaceholder, hs]),
        if_neg (by cases hs : p.kind.isSwitch <;> simp [hplaceholder, hs]),
        if_neg (by
          intro h
          rw [Bool.and_eq_true, bne_iff_ne] at h
          exact h.2 (hrepeated h.1))]

/-- A parameter that a schema can hold. -/
structure Sound (p : Parameter) : Prop where
  named : Text.isAllBlank p.name = false
  /-- A source and a template for derived names come together. -/
  paired : p.nameSource.isSome = p.nameTemplate.isSome
  argument : ∀ t, p.argument = some t → ArgumentFits p.kind t
  isPath : p.mustExist = true → p.kind.isPath = true
  irreflexive : p.name ∉ p.requires

theorem Sound.exists_template {p : Parameter} (hp : p.Sound) {source : String}
    (h : p.nameSource = some source) : ∃ template, p.nameTemplate = some template := by
  rw [← Option.isSome_iff_exists, ← hp.paired, h]
  rfl

theorem contradiction?_eq_none_iff {p : Parameter} :
    p.contradiction? = none ↔
      p.nameSource.isSome = p.nameTemplate.isSome ∧ p.argumentFault? = none ∧
        (p.mustExist = true → p.kind.isPath = true) ∧ p.name ∉ p.requires := by
  unfold contradiction?
  cases p.argumentFault? with
  | some fault => split_ifs <;> simp
  | none =>
    constructor
    · intro h
      split_ifs at h with hhalf hexists hrequires
      exact ⟨by simpa using hhalf, rfl, by simpa using hexists, by simpa using hrequires⟩
    · rintro ⟨hpaired, _, hpath, hrequires⟩
      rw [if_neg (by simp [hpaired]),
        if_neg (by cases he : p.mustExist <;> simp [hpath, he]), if_neg (by simpa using hrequires)]

theorem fault?_eq_none_iff {p : Parameter} : p.fault? = none ↔ p.Sound := by
  unfold fault?
  by_cases hblank : Text.isAllBlank p.name = true
  · rw [if_pos hblank]
    refine ⟨fun h => (by cases h), fun h => ?_⟩
    rw [h.named] at hblank
    cases hblank
  · rw [if_neg hblank, Option.map_eq_none_iff, contradiction?_eq_none_iff,
      argumentFault?_eq_none_iff]
    constructor
    · rintro ⟨hpaired, hargument, hpath, hrequires⟩
      exact ⟨by simpa using hblank, hpaired, hargument, hpath, hrequires⟩
    · intro h
      exact ⟨h.paired, h.argument, h.isPath, h.irreflexive⟩

end Parameter

end ContainerCommand
