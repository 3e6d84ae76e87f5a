import ContainerCommand.Command.Compile
import ContainerCommand.Proofs.Mount.Writing

/-! The mounts that a compilation uses, and the inputs that it resolves.

`Schema.Uses` says which rules are in use: the given ones, or if there are none those that
the input for the mounts writes (`effectiveRules_eq_ok_iff`). The rules in use then stand
in the inputs as their specifications (`get?_effectiveInputs_mounts`), and no other input
changes (`get?_effectiveInputs_of_ne`). So a compilation depends on where rules come from by
nothing but the rules (`compile_congr_of_uses`). -/
namespace ContainerCommand

/-! ### Tables that agree but for one name -/

namespace Table

variable {α : Type} {name : String} {t u : Table α}

/-- The tables give the same for every other name. -/
def AgreesBut (name : String) (t u : Table α) : Prop :=
  ∀ other, other ≠ name → t.get? other = u.get? other

theorem agreesBut_insert (t : Table α) (name : String) (a : α) :
    t.AgreesBut name (t.insert name a) := by
  intro other hother
  rw [get?_insert, if_neg hother]

theorem agreesBut_erase_insert (t : Table α) (name : String) (a : α) :
    (t.erase name).AgreesBut name (t.insert name a) := by
  intro other hother
  rw [get?_erase, get?_insert, if_neg hother, if_neg hother]

/-- One entry at the name makes the tables equal. -/
theorem AgreesBut.insert_eq (h : t.AgreesBut name u) (a : α) :
    t.insert name a = u.insert name a := by
  refine ext_get? fun other => ?_
  rw [get?_insert, get?_insert]
  split
  · rfl
  · rename_i hother
    exact h other hother

end Table

/-! ### The rules in use -/

/-- The texts that a value lists. One text stands for a list of it. -/
inductive Value.Lists : Value → List String → Prop
  | list (items) : Lists (.list items) items
  | text (s) : Lists (.text s) [s]

theorem Value.Lists.unique {value : Value} {items others : List String} (h : value.Lists items)
    (h' : value.Lists others) : items = others := by
  cases h <;> cases h' <;> rfl

theorem rulesOfInput_eq_ok_iff {value : Value} {used : List MountRule} :
    rulesOfInput value = .ok used ↔
      ∃ entries, value.Lists entries ∧
        List.Forall₂ (fun entry rule => MountRule.parse entry = .ok rule) entries used := by
  constructor
  · intro h
    cases value with
    | list entries => exact ⟨entries, .list entries, mapM_eq_ok_iff.mp h⟩
    | text entry => exact ⟨[entry], .text entry, mapM_eq_ok_iff.mp h⟩
    | _ => cases h
  · rintro ⟨_, hlists, h⟩
    cases hlists with
    | list entries => exact mapM_eq_ok_iff.mpr h
    | text entry => exact mapM_eq_ok_iff.mpr h

namespace Schema

/-- The rules that a compilation uses. -/
inductive Uses (schema : Schema) (inputs : Inputs) (rules : List MountRule) :
    List MountRule → Prop
  | given : rules ≠ [] → Uses schema inputs rules rules
  | undeclared : schema.contains mountsName = false → Uses schema inputs rules rules
  | bare : inputs.get? mountsName = none → Uses schema inputs rules rules
  /-- Without rules, the input for the mounts writes them. -/
  | written {value entries used} : rules = [] → schema.contains mountsName = true →
      inputs.get? mountsName = some value → value.Lists entries →
      List.Forall₂ (fun entry rule => MountRule.parse entry = .ok rule) entries used →
      Uses schema inputs rules used

variable {schema : Schema} {inputs : Inputs} {rules used : List MountRule}

theorem effectiveRules_eq_ok_iff :
    schema.effectiveRules inputs rules = .ok used ↔ schema.Uses inputs rules used := by
  unfold effectiveRules
  constructor
  · intro h
    cases hvalue : inputs.get? mountsName with
    | none =>
      rw [hvalue] at h
      cases h
      exact .bare hvalue
    | some value =>
      simp only [hvalue] at h
      cases hmounts : schema.contains mountsName with
      | false =>
        rw [hmounts, Bool.and_false, if_neg Bool.false_ne_true] at h
        cases h
        exact .undeclared hmounts
      | true =>
        cases rules with
        | cons rule rest =>
          rw [List.isEmpty_cons, Bool.false_and, if_neg Bool.false_ne_true] at h
          cases h
          exact .given (by simp)
        | nil =>
          rw [hmounts, List.isEmpty_nil, Bool.true_and, if_pos rfl] at h
          obtain ⟨entries, hlists, hentries⟩ := rulesOfInput_eq_ok_iff.mp h
          exact .written rfl hmounts hvalue hlists hentries
  · intro h
    cases h with
    | given hrules =>
      have hempty : rules.isEmpty = false := by simpa using hrules
      rw [hempty]
      cases inputs.get? mountsName <;> rfl
    | undeclared hmounts =>
      rw [hmounts, Bool.and_false]
      cases inputs.get? mountsName <;> rfl
    | bare hvalue => rw [hvalue]
    | written hrules hmounts hvalue hlists hentries =>
      subst hrules
      rw [hvalue, hmounts]
      exact rulesOfInput_eq_ok_iff.mpr ⟨_, hlists, hentries⟩

/-- The rules in use are said by the input for the mounts alone. -/
theorem effectiveRules_congr {other : Inputs}
    (h : inputs.get? mountsName = other.get? mountsName) :
    schema.effectiveRules inputs rules = schema.effectiveRules other rules := by
  unfold effectiveRules
  rw [h]

theorem get?_effectiveInputs_of_ne {name : String} (hname : name ≠ mountsName) :
    (schema.effectiveInputs inputs used).get? name = inputs.get? name := by
  unfold effectiveInputs
  split
  · rw [Table.get?_insert, if_neg hname]
  · rfl

/-- Where the mounts are declared, their input lists the rules in use, if there are any. -/
theorem get?_effectiveInputs_mounts (hmounts : schema.contains mountsName = true)
    (hused : schema.Uses inputs rules used) :
    (schema.effectiveInputs inputs used).get? mountsName = some (.list (used.map MountRule.spec)) ∨
      used = [] ∧ (schema.effectiveInputs inputs used).get? mountsName = none := by
  unfold effectiveInputs
  cases used with
  | cons rule rest =>
    rw [hmounts]
    exact .inl (by simp [Table.get?_insert])
  | nil =>
    rw [if_neg (by simp)]
    cases hused with
    | given hrules => exact absurd rfl hrules
    | undeclared hmounts' => rw [hmounts] at hmounts'; cases hmounts'
    | bare hvalue => exact .inr ⟨rfl, hvalue⟩
    | written _ _ hvalue hlists hentries =>
      -- A text is one entry and writes a rule, so the value is the empty list.
      rw [List.forall₂_nil_right_iff] at hentries
      subst hentries
      cases hlists
      exact .inl hvalue

/-- Rules in use that were read are written as they were read. -/
theorem Uses.parse_spec (hused : schema.Uses inputs rules used)
    (h : ∀ rule ∈ rules, MountRule.parse rule.spec = .ok rule) :
    ∀ rule ∈ used, MountRule.parse rule.spec = .ok rule := by
  cases hused with
  | given | undeclared | bare => exact h
  | written _ _ _ _ hentries =>
    exact MountRule.parse_spec_of_parseAll (mapM_eq_ok_iff.mpr hentries)

/-! ### Where rules come from -/

variable {other : Inputs} {others : List MountRule}

/-- Rules in use take the place of an input for the mounts. -/
theorem effectiveInputs_congr (hmounts : schema.contains mountsName = true) (hused : used ≠ [])
    (h : inputs.AgreesBut mountsName other) :
    schema.effectiveInputs inputs used = schema.effectiveInputs other used := by
  have hempty : (!used.isEmpty && schema.contains mountsName) = true := by simp [hused, hmounts]
  rw [effectiveInputs, effectiveInputs, if_pos hempty, if_pos hempty, h.insert_eq]

/-- **Rules in use are used alike**, whether they are given or an input writes them. -/
theorem compile_congr_of_uses (launcher : Launcher) (isOnHost : String → Bool)
    (hmounts : schema.contains mountsName = true) (hused : used ≠ [])
    (h : inputs.AgreesBut mountsName other) (hrules : schema.Uses inputs rules used)
    (hothers : schema.Uses other others used) :
    schema.compile launcher isOnHost inputs rules =
      schema.compile launcher isOnHost other others := by
  rw [← effectiveRules_eq_ok_iff] at hrules hothers
  simp only [compile, hrules, hothers, bind, Except.bind, effectiveInputs_congr hmounts hused h]

end Schema

end ContainerCommand
