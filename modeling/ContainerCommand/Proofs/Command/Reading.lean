import ContainerCommand.Proofs.Command.Stages
import ContainerCommand.Proofs.Resolution.Reading
import ContainerCommand.Task.Builtin

/-! What a compilation reads of values.

Of a value that must exist on the host a compilation reads the paths that it names, and of a value that
is shown what its template makes of it. A change of values that keeps these, and that resolution
overlooks, goes unnoticed by the whole of a compilation (`compile_change`). Such a change is the one
that writes a single text as the list of it (`Value.listed`). -/
namespace ContainerCommand

/-! ### Parameters -/

namespace Parameter

variable {p : Parameter} {rules : List MountRule} {resolution : Resolution}
  {f : String → Value → Value}

/-- Values that the templates show alike are shown alike. -/
theorem tokens_change_of_emit (h : ∀ t value, p.emit rules t (f p.name value) = p.emit rules t value) :
    p.tokens rules (resolution.change f) = p.tokens rules resolution := by
  unfold tokens
  rw [Resolution.get?_change]
  cases resolution.get? p.name with
  | none => rfl
  | some r =>
    cases p.argument with
    | none => rfl
    | some t => simp only [Option.map_some, h]

theorem tokens_change (h : ∀ value, f p.name value = value) :
    p.tokens rules (resolution.change f) = p.tokens rules resolution :=
  tokens_change_of_emit fun t value => by rw [h]

/-- Values that name the same paths are looked for alike. -/
theorem checkHost_change {isOnHost : String → Bool}
    (h : p.mustExist = true → ∀ value, p.elements (f p.name value) = p.elements value) :
    p.checkHost isOnHost (resolution.change f) = p.checkHost isOnHost resolution := by
  unfold checkHost
  cases hexists : p.mustExist with
  | false => rfl
  | true =>
    rw [Resolution.value?_change]
    cases resolution.value? p.name with
    | none => rfl
    | some value => simp only [Option.map_some, h hexists]

end Parameter

/-! ### Compilations -/

/-- A change of values that a schema notices in inputs neither when it resolves them nor afterwards: the
same paths are looked for, and the same is shown. -/
structure Schema.Disregards (schema : Schema) (inputs : Inputs) (f : String → Value → Value) : Prop
    extends schema.Overlooks inputs f where
  elements : ∀ p ∈ schema.params, p.mustExist = true → ∀ value,
    p.elements (f p.name value) = p.elements value
  emit : ∀ p ∈ schema.params, ∀ rules t value,
    p.emit rules t (f p.name value) = p.emit rules t value

/-- The command with the values changed that it was made from. -/
def Command.change (f : String → Value → Value) (command : Command) : Command :=
  { command with resolved := command.resolved.change f }

namespace Schema

variable {schema : Schema} {launcher : Launcher} {isOnHost : String → Bool} {inputs others : Inputs}
  {rules used : List MountRule} {resolved : Resolution} {f : String → Value → Value}

/-- The values of the parameters; those that must exist are on the host. -/
def resolveOnHost (schema : Schema) (isOnHost : String → Bool) (inputs : Inputs) :
    Except CompileError Resolution := do
  let resolved ← schema.resolve inputs
  schema.params.forM fun p => p.checkHost isOnHost resolved
  return resolved

theorem prepare_eq_bind :
    schema.prepare isOnHost inputs rules =
      schema.effectiveRules inputs rules >>= fun used =>
        (schema.resolveOnHost isOnHost (schema.effectiveInputs inputs used)).map (used, ·) := by
  unfold prepare
  refine bind_congr_of_ok fun used _ => ?_
  unfold resolveOnHost
  cases schema.resolve (schema.effectiveInputs inputs used) with
  | error e => rfl
  | ok resolved =>
    simp only [bind, Except.bind]
    cases schema.params.forM fun p => p.checkHost isOnHost resolved <;> rfl

theorem resolveOnHost_change (hf : schema.Overlooks inputs f)
    (helements : ∀ p ∈ schema.params, p.mustExist = true → ∀ value,
      p.elements (f p.name value) = p.elements value) :
    schema.resolveOnHost isOnHost (inputs.map f) =
      (schema.resolveOnHost isOnHost inputs).map (Resolution.change f) := by
  unfold resolveOnHost
  rw [resolve_change hf]
  cases schema.resolve inputs with
  | error e => rfl
  | ok resolved =>
    have hcheck : (schema.params.forM fun p => p.checkHost isOnHost (resolved.change f)) =
        schema.params.forM fun p => p.checkHost isOnHost resolved :=
      forM_congr fun p hp => Parameter.checkHost_change (helements p hp)
    simp only [Except.map, bind, Except.bind, hcheck]
    cases schema.params.forM fun p => p.checkHost isOnHost resolved <;> rfl

theorem assemble_change (hf : schema.Disregards inputs f) :
    schema.assemble launcher used (resolved.change f) =
      (schema.assemble launcher used resolved).map (Command.change f) := by
  have htokens : (schema.params.mapM fun p => do return (p, ← p.tokens used (resolved.change f))) =
      schema.params.mapM fun p => do return (p, ← p.tokens used resolved) :=
    mapM_congr fun p hp => by rw [Parameter.tokens_change_of_emit (hf.emit p hp used)]
  unfold assemble
  rw [htokens, Resolution.isTruthy_change_of_isTruthy hf.isTruthy]
  cases schema.params.mapM fun p => do return (p, ← p.tokens used resolved) <;> rfl

/-- **A change that is disregarded commutes with compilation**: the same command is made, from the changed
values. -/
theorem compile_change
    (hrules : schema.effectiveRules others rules = schema.effectiveRules inputs rules)
    (hinputs : ∀ used, schema.effectiveInputs others used = (schema.effectiveInputs inputs used).map f)
    (hf : ∀ used, schema.Disregards (schema.effectiveInputs inputs used) f) :
    schema.compile launcher isOnHost others rules =
      (schema.compile launcher isOnHost inputs rules).map (Command.change f) := by
  rw [compile_eq_bind, compile_eq_bind, prepare_eq_bind, prepare_eq_bind, hrules]
  cases schema.effectiveRules inputs rules with
  | error e => rfl
  | ok used =>
    simp only [bind, Except.bind, hinputs,
      resolveOnHost_change (hf used).toOverlooks (hf used).elements]
    cases schema.resolveOnHost isOnHost (schema.effectiveInputs inputs used) with
    | error e => rfl
    | ok resolved => exact assemble_change (hf used)

end Schema

/-! ### A text and the list of it -/

namespace Value

/-- A text that is not empty as the list of it. -/
def listed : Value → Value
  | .text s => if s = "" then .text s else .list [s]
  | value => value

theorem isTruthy_listed (value : Value) : value.listed.isTruthy = value.isTruthy := by
  cases value with
  | text s =>
    by_cases hs : s = ""
    · rw [listed, if_pos hs]
    · rw [listed, if_neg hs]
      simp [isTruthy, hs]
  | _ => rfl

/-- The empty text is left alone: it is false, and the list of it is not. -/
example : (text "").isTruthy = false ∧ (list [""]).isTruthy = true := by decide

end Value

namespace Parameter

variable {p : Parameter}

theorem elements_listed (value : Value) : p.elements value.listed = p.elements value := by
  cases value with
  | text s => by_cases hs : s = "" <;> simp [Value.listed, elements, hs]
  | _ => rfl

theorem check_listed (hkind : p.kind = .pathList) (value : Value) :
    p.check value.listed = p.check value := by
  cases value with
  | text s => by_cases hs : s = "" <;> simp [Value.listed, check, hkind, Kind.accepts, hs]
  | _ => rfl

theorem emit_listed (hkind : p.kind = .pathList) (rules : List MountRule) (t : Template.Argument)
    (value : Value) : p.emit rules t value.listed = p.emit rules t value := by
  simp only [emit, hkind, elements_listed]

end Parameter

/-- The change that writes a text under a name as the list of it. -/
def listing (name : String) : String → Value → Value :=
  fun other value => if other = name then value.listed else value

theorem listing_of_ne {name other : String} (h : other ≠ name) : listing name other = id :=
  funext fun _ => if_neg h

namespace Schema

variable {schema : Schema} {launcher : Launcher} {isOnHost : String → Bool} {inputs : Inputs}
  {rules used : List MountRule} {p : Parameter}

/-- A list of paths that no name is derived from is read alike if it is a single text. -/
theorem disregards_listing (hp : p ∈ schema.params) (hkind : p.kind = .pathList)
    (hsource : ∀ q ∈ schema.params, q.nameSource ≠ some p.name)
    (hgiven : inputs.contains p.name = true) : schema.Disregards inputs (listing p.name) where
  check q hq value _ := by
    unfold listing
    split
    · rename_i hname
      rw [eq_of_name_eq hq hp hname, p.check_listed hkind]
    · rfl
  derive q hq source hq' template value := by
    have hne : source ≠ p.name := fun hname => hsource q hq (hname ▸ hq')
    rw [listing_of_ne hne, id]
  derived q hq hnone s := by
    have hne : q.name ≠ p.name := fun hname => by
      rw [Table.contains, ← hname, hnone] at hgiven
      cases hgiven
    rw [listing_of_ne hne, id]
  isTruthy name value := by
    unfold listing
    split
    · exact value.isTruthy_listed
    · rfl
  elements q hq _ value := by
    unfold listing
    split
    · exact q.elements_listed value
    · rfl
  emit q hq rules t value := by
    unfold listing
    split
    · rename_i hname
      rw [eq_of_name_eq hq hp hname, p.emit_listed hkind]
    · rfl

/-- The rules in use are written alike. -/
theorem effectiveRules_insert_list (inputs : Inputs) (rules : List MountRule) (name s : String) :
    schema.effectiveRules (inputs.insert name (.list [s])) rules =
      schema.effectiveRules (inputs.insert name (.text s)) rules := by
  unfold effectiveRules
  rw [Table.get?_insert, Table.get?_insert]
  by_cases hname : mountsName = name
  · rw [if_pos hname, if_pos hname]
    rfl
  · rw [if_neg hname, if_neg hname]

theorem map_listing_insert (inputs : Inputs) {name s : String} (hs : s ≠ "") :
    (inputs.insert name (.text s)).map (listing name) = inputs.insert name (.list [s]) := by
  have hothers : (inputs.map (listing name)).AgreesBut name inputs := fun other hother => by
    rw [Table.get?_map, listing_of_ne hother, Option.map_id, id]
  have hvalue : listing name name (.text s) = .list [s] := by
    rw [listing, if_pos rfl, Value.listed, if_neg hs]
  rw [Table.map_insert, hvalue, hothers.insert_eq]

/-- Rules in use take the place of either value. -/
theorem effectiveInputs_insert_list (inputs : Inputs) (used : List MountRule) {name s : String}
    (hs : s ≠ "") :
    schema.effectiveInputs (inputs.insert name (.list [s])) used =
      (schema.effectiveInputs (inputs.insert name (.text s)) used).map (listing name) := by
  have hspecs : listing name mountsName (.list (used.map MountRule.spec)) =
      .list (used.map MountRule.spec) := ite_self _
  unfold effectiveInputs
  split
  · rw [Table.map_insert, map_listing_insert inputs hs, hspecs]
  · exact (map_listing_insert inputs hs).symm

theorem contains_effectiveInputs {name : String} (h : inputs.contains name = true) :
    (schema.effectiveInputs inputs used).contains name = true := by
  unfold effectiveInputs
  split
  · rw [Table.contains, Table.get?_insert]
    split
    · rfl
    · exact h
  · exact h

/-- **A single text is a list of one.** For a list of paths that no name is derived from, a text that is
not empty and the list of that text are compiled alike, also where they write the mounts. Either both
fail with the same error, or the two commands start with the same words, have the same tokens and are
made from the same values, of the same origins and suppressed alike, but for the value itself. -/
theorem compile_text_or_list (launcher : Launcher) (isOnHost : String → Bool) (inputs : Inputs)
    (rules : List MountRule) (hp : p ∈ schema.params) (hkind : p.kind = .pathList)
    (hsource : ∀ q ∈ schema.params, q.nameSource ≠ some p.name) {s : String} (hs : s ≠ "") :
    let ofText := schema.compile launcher isOnHost (inputs.insert p.name (.text s)) rules
    let ofList := schema.compile launcher isOnHost (inputs.insert p.name (.list [s])) rules
    (∃ e, ofText = .error e ∧ ofList = .error e) ∨
      ∃ command command', ofText = .ok command ∧ ofList = .ok command' ∧
        command'.launch = command.launch ∧ command'.tokens = command.tokens ∧
        command.resolved.AgreesBut p.name command'.resolved ∧
        (command'.resolved.get? p.name).map (fun r => (r.origin, r.isSuppressed)) =
          (command.resolved.get? p.name).map fun r => (r.origin, r.isSuppressed) := by
  intro ofText ofList
  have hgiven : (inputs.insert p.name (.text s)).contains p.name = true := by
    rw [Table.contains, Table.get?_insert, if_pos rfl]
    rfl
  have hlist : ofList = ofText.map (Command.change (listing p.name)) :=
    compile_change (effectiveRules_insert_list inputs rules p.name s)
      (fun used => effectiveInputs_insert_list inputs used hs)
      fun used => disregards_listing hp hkind hsource (contains_effectiveInputs hgiven)
  cases htext : ofText with
  | error e =>
    rw [htext] at hlist
    exact .inl ⟨e, rfl, hlist⟩
  | ok command =>
    rw [htext] at hlist
    refine .inr ⟨command, _, rfl, hlist, rfl, rfl, fun name hname => ?_, ?_⟩
    · show _ = (command.resolved.change (listing p.name)).get? name
      rw [Resolution.get?_change, listing_of_ne hname]
      exact (Option.map_id' ..).symm
    · show ((command.resolved.change (listing p.name)).get? p.name).map _ = _
      rw [Resolution.get?_change, Option.map_map]
      rfl

/-- The mounts are read of a text as of a list, and a scan that is not there is missed in both. -/
theorem compile_text_or_list_mounts :
    let scans : Parameter :=
      { name := "scans", kind := .pathList, isContainerPath := true, mustExist := true,
        argument := some (.option "-i") }
    let report : Parameter :=
      { name := "report", kind := .path, requires := [mountsName, "scans"],
        argument := some (.option "-o") }
    let schema : Schema := ⟨[debugParam, mountsParam, scans, report], by decide, by decide⟩
    let inputs : Inputs := .ofList [("report", .text "a.log"), ("scans", .list ["/data/a.nii"])]
    let isOnHost : String → Bool := (· == "/data/a.nii")
    (∃ command command',
      schema.compile {} isOnHost (inputs.insert mountsName (.text "/data:/mnt")) [] = .ok command ∧
        schema.compile {} isOnHost (inputs.insert mountsName (.list ["/data:/mnt"])) [] =
          .ok command' ∧
        command'.tokens = command.tokens ∧
        command.resolved.AgreesBut mountsName command'.resolved) ∧
      ∃ e, schema.compile {} isOnHost (inputs.insert "scans" (.text "/data/b.nii")) [] = .error e ∧
        schema.compile {} isOnHost (inputs.insert "scans" (.list ["/data/b.nii"])) [] = .error e := by
  intro scans report schema inputs isOnHost
  have hmounts := compile_text_or_list {} isOnHost inputs []
    (show mountsParam ∈ schema.params by simp [schema]) rfl (by decide)
    (show "/data:/mnt" ≠ "" by decide)
  have hscans := compile_text_or_list {} isOnHost inputs []
    (show scans ∈ schema.params by simp [schema]) rfl (by decide)
    (show "/data/b.nii" ≠ "" by decide)
  have hmade :
      (schema.compile {} isOnHost (inputs.insert mountsName (.text "/data:/mnt")) []).isOk = true := by
    decide +kernel
  have hmissed :
      (schema.compile {} isOnHost (inputs.insert "scans" (.text "/data/b.nii")) []).isOk = false := by
    decide +kernel
  constructor
  · rcases hmounts with ⟨e, htext, -⟩ | ⟨command, command', htext, hlist, -, hsame, hagrees, -⟩
    · cases hmade.symm.trans (congrArg Except.isOk htext)
    · exact ⟨command, command', htext, hlist, hsame, hagrees⟩
  · rcases hscans with h | ⟨command, _, htext, -⟩
    · exact h
    · cases hmissed.symm.trans (congrArg Except.isOk htext)

end Schema

end ContainerCommand
