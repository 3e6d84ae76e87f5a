import ContainerCommand.Proofs.Command.Stages
import ContainerCommand.Proofs.Resolution.Walk
import Mathlib.Data.List.Find

/-! What a compilation asks the host.

The host is asked for the paths that the values of parameters name which must exist
(`Parameter.Needs`), as the values have them and whether or not they are shown. So two hosts that
agree on these paths (`Schema.Asks`) give the same result, and what is reported as missing is the
first such path that is not there (`Schema.Lacks`). No other step reports a missing path
(`not_isMissingPath_of_effectiveRules`, `not_isMissingPath_of_resolve`). -/
namespace ContainerCommand

/-! ### Errors that are met without the host -/

namespace CompileError

/-- The error is about a path that is not on the host. -/
def IsMissingPath (e : CompileError) : Prop :=
  ∃ name path, e = .hostPathNotFound name path

theorem IsInvalidValue.not_isMissingPath {e : CompileError} (h : e.IsInvalidValue) :
    ¬ e.IsMissingPath := by
  obtain ⟨_, _, rfl⟩ := h
  rintro ⟨_, _, h⟩
  cases h

end CompileError

theorem MountRule.not_isMissingPath_of_parseAll {entries : List String} {e : CompileError}
    (h : parseAll entries = .error e) : ¬ e.IsMissingPath := by
  obtain ⟨entry, _, h⟩ := exists_of_mapM_eq_error h
  unfold parse at h
  split at h <;> cases h
  rintro ⟨_, _, h⟩
  cases h

theorem Walk.not_isMissingPath_of_visit {schema : Schema} {inputs : Inputs} {name : String}
    {walk : Walk} {e : CompileError} (h : walk.visit schema inputs name = .error e) :
    ¬ e.IsMissingPath := by
  obtain ⟨_, rfl, _⟩ | ⟨_, rfl⟩ | hvalue := visit_eq_error_cases h
  · rintro ⟨_, _, h⟩
    cases h
  · rintro ⟨_, _, h⟩
    cases h
  · exact hvalue.not_isMissingPath

namespace Schema

variable {schema : Schema} {launcher : Launcher} {isOnHost other : String → Bool}
  {inputs : Inputs} {rules : List MountRule} {resolution : Resolution} {e : CompileError}

theorem not_isMissingPath_of_effectiveRules (h : schema.effectiveRules inputs rules = .error e) :
    ¬ e.IsMissingPath := by
  unfold effectiveRules at h
  split at h
  · split at h
    · unfold rulesOfInput at h
      split at h
      · exact MountRule.not_isMissingPath_of_parseAll h
      · exact MountRule.not_isMissingPath_of_parseAll h
      · cases h
        exact CompileError.IsInvalidValue.not_isMissingPath ⟨_, _, rfl⟩
    · cases h
  · cases h

theorem not_isMissingPath_of_resolve (h : schema.resolve inputs = .error e) :
    ¬ e.IsMissingPath := by
  unfold resolve at h
  cases hundeclared : schema.undeclared? inputs with
  | some name =>
    rw [hundeclared] at h
    cases h
    rintro ⟨_, _, h⟩
    cases h
  | none =>
    rw [hundeclared] at h
    obtain h | ⟨after, _, h⟩ := bind_eq_error_iff.mp h
    · obtain ⟨_, _, _, _, h⟩ :=
        exists_of_foldlM_eq_error (fun _ => True) (fun _ _ _ _ _ _ => trivial) trivial h
      exact Walk.not_isMissingPath_of_visit h
    · cases hmissing : schema.missing? after.resolved with
      | none =>
        rw [hmissing] at h
        cases h
      | some p =>
        rw [hmissing] at h
        cases h
        rintro ⟨_, _, h⟩
        cases h

end Schema

/-! ### Looking for the paths of one parameter -/

namespace Parameter

variable {p : Parameter} {isOnHost other : String → Bool} {resolution : Resolution}
  {hosts : List String}

/-- The paths that a parameter needs on the host: those that its value names, if it must exist. -/
def Needs (p : Parameter) (resolution : Resolution) (hosts : List String) : Prop :=
  p.mustExist = true ∧ ∃ r, resolution.get? p.name = some r ∧ r.value.Lists hosts

theorem checkHost_of_needs (h : p.Needs resolution hosts) :
    p.checkHost isOnHost resolution =
      match hosts.find? (!isOnHost ·) with
      | some path => .error (.hostPathNotFound p.name path)
      | none => .ok () := by
  obtain ⟨hexists, r, hr, hlists⟩ := h
  have helements : p.elements r.value = .ok hosts := elements_eq_ok_iff.mpr hlists
  simp only [checkHost, hexists, Resolution.value?, hr, Option.map_some, helements]
  rfl

/-- Without needs, the host is not asked. -/
theorem exists_checkHost_eq (h : ∀ hosts, ¬ p.Needs resolution hosts) :
    ∃ outcome, (∀ isOnHost, p.checkHost isOnHost resolution = outcome) ∧
      ∀ e, outcome = .error e → e.IsInvalidValue := by
  unfold checkHost Resolution.value?
  cases hexists : p.mustExist with
  | false => exact ⟨.ok (), fun _ => rfl, fun e he => by cases he⟩
  | true =>
    cases hr : resolution.get? p.name with
    | none => exact ⟨.ok (), fun _ => rfl, fun e he => by cases he⟩
    | some r =>
      cases helements : p.elements r.value with
      | error e =>
        refine ⟨.error e, fun _ => ?_, fun e' he => ?_⟩
        · simp only [Option.map_some, helements]
          rfl
        · cases he
          exact invalidValue_of_elements helements
      | ok hosts => exact absurd ⟨hexists, r, hr, elements_eq_ok_iff.mp helements⟩ (h hosts)

theorem checkHost_congr
    (h : ∀ hosts, p.Needs resolution hosts → ∀ path ∈ hosts, isOnHost path = other path) :
    p.checkHost isOnHost resolution = p.checkHost other resolution := by
  by_cases hneeds : ∃ hosts, p.Needs resolution hosts
  · obtain ⟨hosts, hneeds⟩ := hneeds
    have hfind : hosts.find? (!isOnHost ·) = hosts.find? (!other ·) :=
      List.find?_congr fun path hpath => by rw [h hosts hneeds path hpath]
    rw [checkHost_of_needs hneeds, checkHost_of_needs hneeds, hfind]
  · obtain ⟨outcome, houtcome, _⟩ := exists_checkHost_eq (not_exists.mp hneeds)
    rw [houtcome, houtcome]

/-- What is missing is the first path of the value that is not there. -/
theorem checkHost_eq_hostPathNotFound_iff {name path : String} :
    p.checkHost isOnHost resolution = .error (.hostPathNotFound name path) ↔
      p.name = name ∧ ∃ front back, p.Needs resolution (front ++ path :: back) ∧
        (∀ host ∈ front, isOnHost host = true) ∧ isOnHost path = false := by
  constructor
  · intro h
    by_cases hneeds : ∃ hosts, p.Needs resolution hosts
    · obtain ⟨hosts, hneeds⟩ := hneeds
      rw [checkHost_of_needs hneeds] at h
      split at h
      · rename_i hfind
        cases h
        obtain ⟨hmissing, front, back, rfl, hfront⟩ := List.find?_eq_some_iff_append.mp hfind
        exact ⟨rfl, front, back, hneeds, by simpa using hfront, by simpa using hmissing⟩
      · cases h
    · obtain ⟨outcome, houtcome, hinvalid⟩ := exists_checkHost_eq (not_exists.mp hneeds)
      rw [houtcome] at h
      exact absurd ⟨_, _, rfl⟩ (hinvalid _ h).not_isMissingPath
  · rintro ⟨rfl, front, back, hneeds, hfront, hmissing⟩
    have hfind : (front ++ path :: back).find? (!isOnHost ·) = some path :=
      List.find?_eq_some_iff_append.mpr
        ⟨by simpa using hmissing, front, back, rfl, by simpa using hfront⟩
    rw [checkHost_of_needs hneeds, hfind]

end Parameter

namespace Schema

variable {schema : Schema} {launcher : Launcher} {isOnHost other : String → Bool}
  {inputs : Inputs} {rules used : List MountRule} {resolution : Resolution}

theorem Resolves.checkHost_eq_ok_iff_needs (h : schema.Resolves inputs resolution) {p : Parameter}
    (hp : p ∈ schema.params) :
    p.checkHost isOnHost resolution = .ok () ↔
      ∀ hosts, p.Needs resolution hosts → ∀ host ∈ hosts, isOnHost host = true := by
  rw [Parameter.checkHost_eq_ok_iff (Parameter.fault?_eq_none_iff.mp (schema.sound p hp))
    (h.fits p hp)]
  constructor
  · rintro honHost hosts ⟨hexists, r, hr, hlists⟩
    exact honHost hexists r hr hosts hlists
  · intro honHost hexists r hr hosts hlists
    exact honHost hosts ⟨hexists, r, hr, hlists⟩

/-! ### Looking for the paths of a schema -/

/-- What stops a compilation before the host is asked. -/
inductive Refuses (schema : Schema) (inputs : Inputs) (rules : List MountRule) :
    CompileError → Prop
  /-- The input for the mounts, which is read if no rules are given, does not write rules. -/
  | mounts {value e} : rules = [] → schema.contains mountsName = true →
      inputs.get? mountsName = some value → rulesOfInput value = .error e →
      Refuses schema inputs rules e
  /-- With the rules in use, the parameters cannot be resolved. -/
  | inputs {used e} : schema.Uses inputs rules used →
      schema.resolve (schema.effectiveInputs inputs used) = .error e →
      Refuses schema inputs rules e

/-- A path that a compilation asks the host for: a parameter that must exist names it in its
resolved value. -/
def Asks (schema : Schema) (inputs : Inputs) (rules : List MountRule) (path : String) : Prop :=
  ∃ used resolution, schema.Uses inputs rules used ∧
    schema.resolve (schema.effectiveInputs inputs used) = .ok resolution ∧
    ∃ p ∈ schema.params, ∃ hosts, p.Needs resolution hosts ∧ path ∈ hosts

/-- The first parameter of the schema that lacks a path, and the first path that it lacks. -/
def Lacks (schema : Schema) (isOnHost : String → Bool) (resolution : Resolution)
    (name path : String) : Prop :=
  ∃ before p after front back, schema.params = before ++ p :: after ∧ p.name = name ∧
    (∀ q ∈ before, ∀ hosts, q.Needs resolution hosts → ∀ host ∈ hosts, isOnHost host = true) ∧
    p.Needs resolution (front ++ path :: back) ∧ (∀ host ∈ front, isOnHost host = true) ∧
    isOnHost path = false

theorem Refuses.prepare_eq {e : CompileError} (h : schema.Refuses inputs rules e) :
    schema.prepare isOnHost inputs rules = .error e := by
  unfold prepare
  cases h with
  | mounts hrules hmounts hvalue he =>
    have heffective : schema.effectiveRules inputs rules = .error e := by
      simp [effectiveRules, hvalue, hrules, hmounts, he]
    rw [heffective]
    rfl
  | inputs hused he =>
    rw [effectiveRules_eq_ok_iff.mpr hused]
    show (schema.resolve _ >>= _) = _
    rw [he]
    rfl

theorem prepare_congr (h : ∀ path, schema.Asks inputs rules path → isOnHost path = other path) :
    schema.prepare isOnHost inputs rules = schema.prepare other inputs rules := by
  unfold prepare
  refine bind_congr_of_ok fun used hused => bind_congr_of_ok fun resolution hresolution => ?_
  have hcheck : (schema.params.forM fun p => p.checkHost isOnHost resolution) =
      schema.params.forM fun p => p.checkHost other resolution :=
    forM_congr fun p hp => Parameter.checkHost_congr fun hosts hneeds path hpath =>
      h path ⟨used, resolution, effectiveRules_eq_ok_iff.mp hused, hresolution, p, hp, hosts,
        hneeds, hpath⟩
  rw [hcheck]

/-- A missing path is reported exactly if the values are found and lack it. -/
theorem prepare_eq_hostPathNotFound_iff {name path : String} :
    schema.prepare isOnHost inputs rules = .error (.hostPathNotFound name path) ↔
      ∃ used resolution, schema.Uses inputs rules used ∧
        schema.resolve (schema.effectiveInputs inputs used) = .ok resolution ∧
        schema.Lacks isOnHost resolution name path := by
  simp only [prepare, bind_eq_error_iff, forM_eq_error_iff, effectiveRules_eq_ok_iff,
    Parameter.checkHost_eq_hostPathNotFound_iff]
  constructor
  · rintro (h | ⟨used, hused, h | ⟨resolution, hresolution, h | ⟨_, _, h⟩⟩⟩)
    · exact absurd ⟨_, _, rfl⟩ (not_isMissingPath_of_effectiveRules h)
    · exact absurd ⟨_, _, rfl⟩ (not_isMissingPath_of_resolve h)
    · obtain ⟨before, p, after, hsplit, hbefore, hname, front, back, hneeds, hfront, hmissing⟩ := h
      refine ⟨used, resolution, hused, hresolution, before, p, after, front, back, hsplit, hname,
        fun q hq => ?_, hneeds, hfront, hmissing⟩
      have hq' : q ∈ schema.params := by rw [hsplit]; exact List.mem_append_left _ hq
      exact ((resolves_of_resolve hresolution).checkHost_eq_ok_iff_needs hq').mp (hbefore q hq)
    · cases h
  · rintro ⟨used, resolution, hused, hresolution, before, p, after, front, back, hsplit, hname,
      hbefore, hneeds, hfront, hmissing⟩
    refine .inr ⟨used, hused, .inr ⟨resolution, hresolution, .inl ⟨before, p, after, hsplit,
      fun q hq => ?_, hname, front, back, hneeds, hfront, hmissing⟩⟩⟩
    have hq' : q ∈ schema.params := by rw [hsplit]; exact List.mem_append_left _ hq
    exact ((resolves_of_resolve hresolution).checkHost_eq_ok_iff_needs hq').mpr (hbefore q hq)

/-- **What a compilation asks the host**, and what it makes of the answers. What stops it before is
the same on every host; hosts that agree on the paths that it asks for give the same result; and the
path that it reports as missing is the first that is not there. -/
theorem compile_depends_on_asked (schema : Schema) (launcher : Launcher) (inputs : Inputs)
    (rules : List MountRule) :
    (∀ e, schema.Refuses inputs rules e →
        ∀ isOnHost, schema.compile launcher isOnHost inputs rules = .error e) ∧
      (∀ isOnHost other,
        (∀ path, schema.Asks inputs rules path → isOnHost path = other path) →
          schema.compile launcher isOnHost inputs rules =
            schema.compile launcher other inputs rules) ∧
      ∀ isOnHost name path,
        schema.compile launcher isOnHost inputs rules = .error (.hostPathNotFound name path) ↔
          ∃ used resolution, schema.Uses inputs rules used ∧
            schema.resolve (schema.effectiveInputs inputs used) = .ok resolution ∧
            schema.Lacks isOnHost resolution name path := by
  refine ⟨fun e h isOnHost => ?_, fun isOnHost other h => ?_, fun isOnHost name path => ?_⟩
  · rw [compile_eq_bind, h.prepare_eq]
    rfl
  · rw [compile_eq_bind, compile_eq_bind, prepare_congr h]
  · rw [compile_eq_error_iff fun h => h.not_isMissingPath ⟨_, _, rfl⟩,
      prepare_eq_hostPathNotFound_iff]

/-- A scan is shown as the container sees it and looked for where the host has it. -/
theorem compile_depends_on_asked_translated :
    let mounts : Parameter := { name := mountsName, kind := .pathList }
    let scan : Parameter :=
      { name := "scan", kind := .path, isContainerPath := true, mustExist := true,
        argument := some ⟨"%s", .slotted [] "" .text "" [], false⟩ }
    let schema : Schema := ⟨[mounts, scan], by decide, by decide⟩
    let inputs : Inputs := .ofList [("scan", .text "/data/a.nii")]
    let malformed : Inputs := .ofList [(mountsName, .text "data")]
    let rules : List MountRule := [⟨"/data", "/mnt"⟩]
    let isOnHost : String → Bool := fun path => path == "/data/a.nii"
    schema.Refuses malformed [] (.malformedMount "data") ∧
      schema.compile {} isOnHost malformed [] = .error (.malformedMount "data") ∧
      (∀ path, schema.Asks inputs rules path → isOnHost path = true) ∧
      schema.compile {} isOnHost inputs rules = schema.compile {} (fun _ => true) inputs rules ∧
      schema.compile {} (fun _ => false) inputs rules =
        .error (.hostPathNotFound "scan" "/data/a.nii") := by
  intro mounts scan schema inputs malformed rules isOnHost
  have hrefuses : schema.Refuses malformed [] (.malformedMount "data") :=
    .mounts rfl (by decide) (by decide : malformed.get? mountsName = some (.text "data"))
      (by decide)
  have hused : schema.Uses inputs rules rules := .given (by simp [rules])
  let resolution : Resolution := .ofList
    [(mountsName, { value := .list ["/data:/mnt"], origin := .explicit }),
      ("scan", { value := .text "/data/a.nii", origin := .explicit })]
  have hresolution : schema.resolve (schema.effectiveInputs inputs rules) = .ok resolution := by
    decide +kernel
  have hscan : resolution.get? "scan" =
      some { value := .text "/data/a.nii", origin := .explicit } := by decide +kernel
  have hasks : ∀ path, schema.Asks inputs rules path → isOnHost path = true := by
    rintro path ⟨used, resolution', hused', hresolution', p, hp, hosts, ⟨hexists, r, hr, hlists⟩,
      hpath⟩
    have hrules := effectiveRules_eq_ok_iff.mpr hused
    rw [effectiveRules_eq_ok_iff.mpr hused', Except.ok.injEq] at hrules
    rw [hrules, hresolution, Except.ok.injEq] at hresolution'
    simp only [schema, List.mem_cons, List.not_mem_nil, or_false] at hp
    rcases hp with rfl | rfl
    · cases hexists
    · rw [← hresolution', hscan, Option.some.injEq] at hr
      subst hr
      cases hlists
      rw [List.mem_singleton.mp hpath]
      decide
  obtain ⟨hrefused, hagree, hlacks⟩ := compile_depends_on_asked schema {} inputs rules
  refine ⟨hrefuses, (compile_depends_on_asked schema {} malformed []).1 _ hrefuses isOnHost, hasks,
    hagree isOnHost (fun _ => true) hasks,
    (hlacks (fun _ => false) "scan" "/data/a.nii").mpr ⟨rules, resolution, hused, hresolution,
      [mounts], scan, [], [], [], rfl, rfl, ?_, ⟨rfl, _, hscan, .text _⟩, by simp, rfl⟩⟩
  rintro q hq hosts ⟨hexists, _⟩
  rw [List.mem_singleton.mp hq] at hexists
  cases hexists

end Schema

end ContainerCommand
