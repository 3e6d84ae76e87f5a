import ContainerCommand.Proofs.Command.Compilation
import ContainerCommand.Proofs.Resolution.Equations
import ContainerCommand.Task.Builtin

/-! A command compiled once more, from the values that it was made from.

The values of a resolution are inputs themselves (`Resolution.values`). Given as inputs they settle as
themselves, and what has no value has none again (`Resolves.settles_values`), so they are resolved to
the same table, in which every value is a given one (`resolve_values`). The value of the mounts lists
the rules in use and is read as them again (`Uses.of_values`), unless it is derived: a derived value is
not read as rules, but the same value given as an input is. So the command is the same
(`compile_values`). -/
namespace ContainerCommand

namespace Resolution

/-- The values as inputs. -/
def values (resolution : Resolution) : Inputs :=
  resolution.map fun _ r => r.value

/-- The table with all values as given ones. -/
def asGiven (resolution : Resolution) : Resolution :=
  resolution.map fun _ r => { r with origin := .explicit }

variable (resolution : Resolution) (name : String)

theorem get?_values : resolution.values.get? name = resolution.value? name :=
  Table.get?_map ..

theorem get?_asGiven :
    resolution.asGiven.get? name =
      (resolution.get? name).map fun r => { r with origin := .explicit } :=
  Table.get?_map ..

@[simp] theorem value?_asGiven : resolution.asGiven.value? name = resolution.value? name := by
  rw [asGiven, value?_map]
  exact fun _ _ => rfl

@[simp] theorem isTruthy_asGiven :
    resolution.asGiven.isTruthy name = resolution.isTruthy name := by
  rw [asGiven, isTruthy_map]
  exact fun _ _ => rfl

@[simp] theorem isSuppressedIn_asGiven (p : Parameter) :
    p.isSuppressedIn resolution.asGiven = p.isSuppressedIn resolution := by
  rw [asGiven, Parameter.isSuppressedIn_map]
  exact fun _ _ => rfl

/-- Where values come from is not shown. -/
theorem marked_asGiven :
    (resolution.asGiven.get? name).map Resolved.marked =
      (resolution.get? name).map Resolved.marked := by
  rw [get?_asGiven, Option.map_map]
  rfl

end Resolution

namespace Schema

variable {schema : Schema} {launcher : Launcher} {isOnHost : String → Bool} {inputs : Inputs}
  {rules used : List MountRule} {piece : Parameter → List Token} {command : Command}

/-! ### Values -/

namespace Resolves

variable {resolution : Resolution}

theorem value?_eq (h : schema.Resolves inputs resolution) {name : String}
    {found : Option (Value × Origin)} (hsettles : schema.Settles inputs name found) :
    resolution.value? name = found.map Prod.fst := by
  rw [← h.found_eq hsettles, Option.map_map]
  rfl

/-- A value settles as a given one, and a name without a value has none again. -/
theorem settles_values (h : schema.Resolves inputs resolution) {name : String}
    {found : Option (Value × Origin)} (hsettles : schema.Settles inputs name found) :
    schema.Settles resolution.values name (found.map fun f => (f.1, .explicit)) := by
  have hvalue : ∀ {name found}, schema.Settles inputs name found →
      resolution.values.get? name = found.map Prod.fst :=
    fun hname => (resolution.get?_values _).trans (h.value?_eq hname)
  induction hsettles with
  | given hp hgiven => exact .given hp (hvalue (.given hp hgiven))
  | bare hp hgiven hbare => exact .bare hp (hvalue (.bare hp hgiven hbare)) hbare
  | idle hp hgiven hsource hidle ih =>
    exact .idle hp (hvalue (.idle hp hgiven hsource hidle)) hsource ih
  | derived hp hgiven hsource htemplate hsettles htext _ =>
    -- What was derived from its source is now an input of its own.
    exact .given hp (hvalue (.derived hp hgiven hsource htemplate hsettles htext))

theorem asGiven (h : schema.Resolves inputs resolution) :
    schema.Resolves resolution.values resolution.asGiven := by
  have hentry : ∀ name r, resolution.asGiven.get? name = some r →
      ∃ s, resolution.get? name = some s ∧ { s with origin := .explicit } = r := by
    intro name r hr
    rw [resolution.get?_asGiven] at hr
    exact Option.map_eq_some_iff.mp hr
  refine ⟨fun name r hr => ?_, fun p hp => ?_, fun p hp r hr => ?_, fun p hp r hr => ?_,
    fun p hp hmandatory => ?_⟩
  · obtain ⟨s, hs, _⟩ := hentry name r hr
    exact h.declared name s hs
  · have hsettles := h.settles_values (h.settles p hp)
    rw [Option.map_map] at hsettles
    rw [resolution.get?_asGiven, Option.map_map]
    exact hsettles
  · obtain ⟨s, hs, rfl⟩ := hentry p.name r hr
    exact h.fits p hp s hs
  · obtain ⟨s, hs, rfl⟩ := hentry p.name r hr
    rw [resolution.isSuppressedIn_asGiven]
    exact h.suppressed p hp s hs
  · obtain ⟨r, hr⟩ := h.mandatory p hp hmandatory
    rw [resolution.get?_asGiven, hr]
    exact ⟨_, rfl⟩

end Resolves

/-- **The values of a resolution are resolved to the same table**, all of them as given ones. -/
theorem resolve_values {resolution : Resolution} (h : schema.resolve inputs = .ok resolution) :
    schema.resolve resolution.values = .ok resolution.asGiven := by
  have hresolves := resolves_of_resolve h
  refine resolve_eq_ok_iff_resolves.mpr ⟨undeclared?_eq_none_iff.mpr fun name hname => ?_,
    hresolves.asGiven⟩
  obtain ⟨value, hvalue⟩ := Option.isSome_iff_exists.mp hname
  rw [resolution.get?_values] at hvalue
  obtain ⟨r, hr, _⟩ := Option.map_eq_some_iff.mp hvalue
  exact hresolves.declared name r hr

/-! ### Rules -/

/-- The value of the mounts is its input, where that is not derived. -/
theorem Resolves.value?_mounts {resolution : Resolution} (h : schema.Resolves inputs resolution)
    (hmounts : schema.contains mountsName = true)
    (hplain : ∀ p ∈ schema.params, p.name = mountsName → p.nameSource = none) :
    resolution.value? mountsName = inputs.get? mountsName := by
  obtain ⟨p, hp, hname⟩ := contains_iff.mp hmounts
  have hget : schema.get? mountsName = some p := get?_eq_some_iff.mpr ⟨hp, hname⟩
  cases hvalue : inputs.get? mountsName with
  | some value => exact h.value?_eq (.given hget hvalue)
  | none => exact h.value?_eq (.bare hget hvalue (hplain p hp hname))

/-- The value of the mounts is read as the rules in use. -/
theorem Uses.of_values (hused : schema.Uses inputs rules used) {resolution : Resolution}
    (h : schema.Resolves (schema.effectiveInputs inputs used) resolution)
    (hplain : ∀ p ∈ schema.params, p.name = mountsName → p.nameSource = none) :
    schema.Uses resolution.values rules used := by
  have hwritten : rules = [] → schema.contains mountsName = true →
      schema.Uses resolution.values rules used := by
    intro hrules hmounts
    have hvalue := (resolution.get?_values mountsName).trans (h.value?_mounts hmounts hplain)
    rcases get?_effectiveInputs_mounts hmounts hused with hlist | ⟨hnil, hnone⟩
    · refine .written hrules hmounts (hvalue.trans hlist) (.list _) ?_
      rw [List.forall₂_map_left_iff, List.forall₂_same]
      exact hused.parse_spec fun rule hrule => by rw [hrules] at hrule; cases hrule
    · rw [hnil, ← hrules]
      exact .bare (hvalue.trans hnone)
  cases hused with
  | given hrules => exact .given hrules
  | undeclared hmounts => exact .undeclared hmounts
  | bare hvalue =>
    cases hmounts : schema.contains mountsName with
    | false => exact .undeclared hmounts
    | true =>
      by_cases hrules : rules = []
      · exact hwritten hrules hmounts
      · exact .given hrules
  | written hrules hmounts _ _ _ => exact hwritten hrules hmounts

/-- The rules in use stand in the values already. -/
theorem effectiveInputs_values {resolution : Resolution}
    (h : schema.Resolves (schema.effectiveInputs inputs used) resolution) :
    schema.effectiveInputs resolution.values used = resolution.values := by
  cases hwrites : !used.isEmpty && schema.contains mountsName with
  | false => rw [effectiveInputs, hwrites, if_neg Bool.false_ne_true]
  | true =>
    have hmounts : schema.contains mountsName = true := (Bool.and_eq_true_iff.mp hwrites).2
    obtain ⟨p, hp, hname⟩ := contains_iff.mp hmounts
    have hlist : (schema.effectiveInputs inputs used).get? mountsName =
        some (.list (used.map MountRule.spec)) := by
      rw [effectiveInputs, if_pos hwrites, Table.get?_insert, if_pos rfl]
    have hvalue : resolution.values.get? mountsName = some (.list (used.map MountRule.spec)) :=
      (resolution.get?_values _).trans
        (h.value?_eq (.given (get?_eq_some_iff.mpr ⟨hp, hname⟩) hlist))
    rw [effectiveInputs, if_pos hwrites]
    refine Table.ext_get? fun name => ?_
    rw [Table.get?_insert]
    split
    · rename_i hname
      rw [hname, hvalue]
    · rfl

/-! ### Commands -/

theorem Compiles.of_values
    (h : schema.Compiles launcher isOnHost inputs rules used piece command)
    (hplain : ∀ p ∈ schema.params, p.name = mountsName → p.nameSource = none) :
    schema.Compiles launcher isOnHost command.resolved.values rules used piece
      { command with resolved := command.resolved.asGiven } where
  rules := h.rules.of_values (resolves_of_resolve h.resolved) hplain
  resolved := by
    rw [effectiveInputs_values (resolves_of_resolve h.resolved)]
    exact resolve_values h.resolved
  onHost p hp := by
    rw [Parameter.checkHost, Resolution.value?_asGiven]
    exact h.onHost p hp
  pieces p hp := (Parameter.tokens_congr (command.resolved.marked_asGiven p.name)).trans
    (h.pieces p hp)
  launch := by
    rw [Resolution.isTruthy_asGiven]
    exact h.launch
  tokens := h.tokens

/-- **The values of a command compile to it again.** Unless the mounts are derived, a schema compiles
the values that a command was made from to a command that differs in nothing but where its values
come from. -/
theorem compile_values
    (hplain : ∀ p ∈ schema.params, p.name = mountsName → p.nameSource = none)
    (h : schema.compile launcher isOnHost inputs rules = .ok command) :
    schema.compile launcher isOnHost command.resolved.values rules =
      .ok { command with resolved := command.resolved.asGiven } := by
  obtain ⟨used, piece, hc⟩ := compile_eq_ok_iff.mp h
  exact compile_eq_ok_iff.mpr ⟨used, piece, hc.of_values hplain⟩

/-- The mounts are read from one text, and a name is derived and kept from being shown. -/
theorem compile_values_report :
    let scan : Parameter :=
      { name := "scan", kind := .path, isContainerPath := true, mustExist := true,
        argument := some (.option "-i") }
    let report : Parameter :=
      { name := "report", kind := .path, nameSource := some "scan",
        nameTemplate := some ⟨"", ".log"⟩, requires := ["debug"], argument := some (.option "-o") }
    let schema : Schema := ⟨[debugParam, mountsParam, scan, report], by decide, by decide⟩
    let inputs : Inputs := .ofList
      [(mountsName, .text "/data:/mnt"), ("scan", .text "/data/a.nii")]
    let values : Inputs := .ofList
      [(mountsName, .list ["/data:/mnt"]), ("report", .text "a.log"),
        ("scan", .text "/data/a.nii")]
    (∀ p ∈ schema.params, p.name = mountsName → p.nameSource = none) ∧
      ∃ command, schema.compile {} (fun _ => true) inputs [] = .ok command ∧
        command.resolved.values = values ∧
        schema.compile {} (fun _ => true) values [] =
          .ok { command with resolved := command.resolved.asGiven } := by
  intro scan report schema inputs values
  have hplain : ∀ p ∈ schema.params, p.name = mountsName → p.nameSource = none := by decide
  obtain ⟨command, h⟩ : ∃ command, schema.compile {} (fun _ => true) inputs [] = .ok command :=
    exists_eq_ok_of_isOk (by decide +kernel)
  have hvalues : (schema.compile {} (fun _ => true) inputs []).map (·.resolved.values) =
      .ok values := by decide +kernel
  rw [h] at hvalues
  replace hvalues : command.resolved.values = values := Except.ok.inj hvalues
  exact ⟨hplain, command, h, hvalues, hvalues ▸ compile_values hplain h⟩

/-- A derived value of the mounts is a text that nothing reads. Given as an input, it is a rule. -/
example :
    let scan : Parameter := { name := "scan", kind := .path }
    let mounts : Parameter :=
      { name := mountsName, kind := .pathList, nameSource := some "scan",
        nameTemplate := some ⟨"/", ":/mnt"⟩ }
    let schema : Schema := ⟨[scan, mounts], by decide, by decide⟩
    let valuesOf (inputs : Inputs) :=
      (schema.compile {} (fun _ => true) inputs []).map (·.resolved.values)
    let derived : Inputs := .ofList [(mountsName, .text "/a:/mnt"), ("scan", .text "a.nii")]
    let given : Inputs := .ofList [(mountsName, .list ["/a:/mnt"]), ("scan", .text "a.nii")]
    valuesOf (.ofList [("scan", .text "a.nii")]) = .ok derived ∧ valuesOf derived = .ok given := by
  decide +kernel

end Schema

end ContainerCommand
