import ContainerCommand.Proofs.Command.Provenance
import ContainerCommand.Proofs.Command.Reading
import ContainerCommand.Task.Builtin

/-! What mounts do to a command.

Rules in use stand in the inputs as a list of texts, and resolution reads of a list only whether it is
empty, so other rules resolve alike (`prepare_eq_map_change`). They show at the value of the mounts,
in its tokens, and in the paths that are shown as the container sees them, and nowhere else. The main
statement is `compile_of_other_rules`. -/
namespace ContainerCommand

/-! ### Lists in place of lists -/

/-- The value with other entries, if it is a list that has some. -/
def Value.relist (others : List String) : Value → Value
  | .list (_ :: _) => .list others
  | value => value

/-- Resolution does not read what the list of the mounts holds. -/
theorem unread_relist {others : List String} (h : others ≠ []) :
    Unread fun name value => if name = mountsName then value.relist others else value := by
  have hrelist : ∀ value : Value, (value.relist others).tag = value.tag ∧
      (value.relist others).sourceText? = value.sourceText? ∧
      (value.relist others).isTruthy = value.isTruthy := by
    intro value
    cases value with
    | list items =>
      cases items with
      | nil => exact ⟨rfl, rfl, rfl⟩
      | cons item rest => exact ⟨rfl, rfl, by simpa [Value.relist, Value.isTruthy] using h⟩
    | _ => exact ⟨rfl, rfl, rfl⟩
  refine ⟨fun name value => ?_, fun name value => ?_, fun name value => ?_⟩
  · split
    · exact (hrelist value).1
    · rfl
  · split
    · exact (hrelist value).2.1
    · rfl
  · split
    · exact (hrelist value).2.2
    · rfl

/-! ### Parameters -/

namespace Parameter

variable {p : Parameter} {rules others : List MountRule} {resolution : Resolution}
  {f : String → Value → Value}

/-- A path that is shown as the host has it is shown alike under all rules. -/
theorem tokens_of_not_isContainerPath (h : p.isContainerPath = false) :
    p.tokens rules resolution = p.tokens others resolution := by
  have hshown : p.shownPath rules = p.shownPath others :=
    funext fun host => by simp only [shownPath, h, Bool.false_eq_true, if_false]
  unfold tokens emit
  rw [hshown]

end Parameter

namespace Schema

variable {schema : Schema} {launcher : Launcher} {isOnHost : String → Bool} {inputs : Inputs}
  {rules others used used' : List MountRule} {piece piece' : Parameter → List Token}
  {command command' : Command}

/-! ### Before anything is shown -/

theorem effectiveRules_of_ne_nil (h : rules ≠ []) :
    schema.effectiveRules inputs rules = .ok rules :=
  effectiveRules_eq_ok_iff.mpr (.given h)

/-- Other rules are an unread change of the inputs, at the mounts alone. -/
theorem exists_effectiveInputs_eq_map (schema : Schema) (inputs : Inputs) (hrules : rules ≠ [])
    (hothers : others ≠ []) :
    ∃ f, Unread f ∧ (∀ name, name ≠ mountsName → ∀ value, f name value = value) ∧
      schema.effectiveInputs inputs others = (schema.effectiveInputs inputs rules).map f := by
  cases hmounts : schema.contains mountsName with
  | false =>
    refine ⟨fun _ value => value, ⟨fun _ _ => rfl, fun _ _ => rfl, fun _ _ => rfl⟩,
      fun _ _ _ => rfl, Table.ext_get? fun name => ?_⟩
    simp only [effectiveInputs, hmounts, Bool.and_false, Bool.false_eq_true, if_false,
      Table.get?_map, Option.map_id']
  | true =>
    have hspecs : others.map MountRule.spec ≠ [] := by simpa using hothers
    refine ⟨_, unread_relist hspecs, fun name hname value => if_neg hname,
      Table.ext_get? fun name => ?_⟩
    obtain ⟨rule, rest, rfl⟩ := List.exists_cons_of_ne_nil hrules
    obtain ⟨other, more, rfl⟩ := List.exists_cons_of_ne_nil hothers
    simp only [effectiveInputs, hmounts, List.isEmpty_cons, Bool.not_false, Bool.and_true, if_true,
      Table.get?_map, Table.get?_insert]
    split
    · rfl
    · rw [Option.map_id']

/-- Under other rules the values are found as before, with an unread change at the mounts, or the same
error is. -/
theorem prepare_eq_map_change (isOnHost : String → Bool) (inputs : Inputs) (hrules : rules ≠ [])
    (hothers : others ≠ [])
    (hplain : ∀ p ∈ schema.params, p.name = mountsName → p.mustExist = false) :
    ∃ f, Unread f ∧ (∀ name, name ≠ mountsName → ∀ value, f name value = value) ∧
      schema.prepare isOnHost inputs others =
        (schema.prepare isOnHost inputs rules).map fun (_, resolved) =>
          (others, resolved.change f) := by
  obtain ⟨f, hf, hframe, hinputs⟩ :=
    exists_effectiveInputs_eq_map schema inputs hrules hothers
  have helements : ∀ p ∈ schema.params, p.mustExist = true → ∀ value,
      p.elements (f p.name value) = p.elements value := fun p hp hexists value => by
    refine congrArg p.elements (hframe p.name (fun hname => ?_) value)
    rw [hplain p hp hname] at hexists
    cases hexists
  refine ⟨f, hf, hframe, ?_⟩
  simp only [prepare_eq_bind, effectiveRules_of_ne_nil hrules, effectiveRules_of_ne_nil hothers, bind,
    Except.bind, hinputs, resolveOnHost_change (hf.overlooks schema _) helements]
  cases schema.resolveOnHost isOnHost (schema.effectiveInputs inputs rules) <;> rfl

/-! ### Tokens -/

/-- Whether a parameter shows mounts: it is the one for the mounts, or it shows a path as the
container sees it. -/
def showsMounts (schema : Schema) (name : String) : Bool :=
  name == mountsName || (schema.get? name).any (·.isContainerPath)

/-- Commands whose parameters show the same but for those that show mounts have the same tokens but
for theirs. -/
theorem Compiles.filter_tokens_eq
    (h : schema.Compiles launcher isOnHost inputs rules used piece command)
    (h' : schema.Compiles launcher isOnHost inputs others used' piece' command')
    (hframe : ∀ p ∈ schema.params, p.name ≠ mountsName →
      p.tokens used' command'.resolved = p.tokens used' command.resolved) :
    command'.tokens.filter (!schema.showsMounts ·.param) =
      command.tokens.filter (!schema.showsMounts ·.param) := by
  rw [h.filter_tokens (!schema.showsMounts ·), h'.filter_tokens (!schema.showsMounts ·)]
  refine List.flatMap_congr fun p hkept => ?_
  obtain ⟨hordered, hshows⟩ := List.mem_filter.mp hkept
  have hp : p ∈ schema.params := ordered_perm.mem_iff.mp hordered
  rw [Bool.not_eq_true', showsMounts, get?_name hp, Option.any_some, Bool.or_eq_false_iff] at hshows
  have hsame : p.tokens used' command'.resolved = p.tokens used command.resolved :=
    (hframe p hp (beq_eq_false_iff_ne.mp hshows.1)).trans
      (Parameter.tokens_of_not_isContainerPath hshows.2)
  rw [h.pieces p hp, h'.pieces p hp, Except.ok.injEq] at hsame
  exact hsame

/-! ### The main statement -/

theorem Compiles.prepare_eq
    (h : schema.Compiles launcher isOnHost inputs rules used piece command) :
    schema.prepare isOnHost inputs rules = .ok (used, command.resolved) := by
  simp only [prepare, bind_eq_ok_iff, pure_eq_ok_iff, forM_eq_ok_iff]
  exact ⟨used, effectiveRules_eq_ok_iff.mpr h.rules, _, h.resolved, (), h.onHost, rfl⟩

/-- **Mounts show where they must and nowhere else.** If the mounts need not exist on the host, any
rules stop a compilation before it shows anything exactly if all do, with the same error. Commands that
are compiled under different rules start with the same words, are made from the same values but for the
value of the mounts, and show the same but for the tokens of the mounts and of paths as the container
sees them. -/
theorem compile_of_other_rules (launcher : Launcher) (isOnHost : String → Bool) (inputs : Inputs)
    (hrules : rules ≠ []) (hothers : others ≠ [])
    (hplain : ∀ p ∈ schema.params, p.name = mountsName → p.mustExist = false) :
    (∀ e, schema.prepare isOnHost inputs rules = .error e ↔
        schema.prepare isOnHost inputs others = .error e) ∧
      ∀ command command', schema.compile launcher isOnHost inputs rules = .ok command →
        schema.compile launcher isOnHost inputs others = .ok command' →
          command'.launch = command.launch ∧
            command.resolved.AgreesBut mountsName command'.resolved ∧
            (command'.resolved.get? mountsName).map (fun r => (r.origin, r.isSuppressed)) =
              (command.resolved.get? mountsName).map (fun r => (r.origin, r.isSuppressed)) ∧
            command'.tokens.filter (!schema.showsMounts ·.param) =
              command.tokens.filter (!schema.showsMounts ·.param) := by
  obtain ⟨f, hf, hframe, hprepare⟩ :=
    prepare_eq_map_change isOnHost inputs hrules hothers hplain
  refine ⟨fun e => ?_, fun command command' h h' => ?_⟩
  · rw [hprepare]
    cases schema.prepare isOnHost inputs rules with
    | error e' => exact Iff.rfl
    | ok prepared => exact iff_of_false (fun he => by cases he) fun he => by cases he
  · obtain ⟨used, piece, hc⟩ := compile_eq_ok_iff.mp h
    obtain ⟨used', piece', hc'⟩ := compile_eq_ok_iff.mp h'
    rw [hc.prepare_eq, hc'.prepare_eq] at hprepare
    obtain ⟨rfl, hresolved⟩ := Prod.mk.inj (Except.ok.inj hprepare)
    have hentry : ∀ name, command'.resolved.get? name =
        (command.resolved.get? name).map fun r => { r with value := f name r.value } :=
      fun name => hresolved ▸ command.resolved.get?_change
    refine ⟨?_, fun name hname => ?_, ?_, ?_⟩
    · rw [hc.launch, hc'.launch, hresolved, Resolution.isTruthy_change hf]
    · simp only [hentry, hframe name hname, Option.map_id']
    · rw [hentry, Option.map_map]
      rfl
    · refine hc.filter_tokens_eq hc' fun p _ hname => ?_
      rw [hresolved]
      exact Parameter.tokens_change (hframe p.name hname)

/-- The scan is shown as either container sees it; the report and the number of threads stay. -/
theorem compile_of_other_rules_scan :
    let scan : Parameter :=
      { name := "scan", kind := .path, isContainerPath := true, mustExist := true,
        argument := some (.option "-i") }
    let report : Parameter :=
      { name := "report", kind := .path, nameSource := some "scan",
        nameTemplate := some ⟨"", ".log"⟩, requires := [mountsName],
        argument := some (.option "-o") }
    let schema : Schema := ⟨[debugParam, mountsParam, scan, report], by decide, by decide⟩
    let inputs : Inputs := .ofList [("scan", .text "/data/a.nii")]
    let rules : List MountRule := [⟨"/data", "/mnt"⟩]
    let others : List MountRule := [⟨"/home", "/root"⟩, ⟨"/data", "/input"⟩]
    rules ≠ [] ∧ others ≠ [] ∧
      (∀ p ∈ schema.params, p.name = mountsName → p.mustExist = false) ∧
      schema.prepare (fun _ => false) inputs others =
        .error (.hostPathNotFound "scan" "/data/a.nii") ∧
      ∃ command command', schema.compile {} (fun _ => true) inputs rules = .ok command ∧
        schema.compile {} (fun _ => true) inputs others = .ok command' ∧
        command'.tokens.filter (!schema.showsMounts ·.param) =
          command.tokens.filter (!schema.showsMounts ·.param) := by
  intro scan report schema inputs rules others
  have hrules : rules ≠ [] := by simp [rules]
  have hothers : others ≠ [] := by simp [others]
  have hplain : ∀ p ∈ schema.params, p.name = mountsName → p.mustExist = false := by decide
  obtain ⟨command, h⟩ : ∃ command, schema.compile {} (fun _ => true) inputs rules = .ok command :=
    exists_eq_ok_of_isOk (by decide +kernel)
  obtain ⟨command', h'⟩ : ∃ command,
      schema.compile {} (fun _ => true) inputs others = .ok command :=
    exists_eq_ok_of_isOk (by decide +kernel)
  have hsame := (compile_of_other_rules {} (fun _ => true) inputs hrules hothers hplain).2
  refine ⟨hrules, hothers, hplain, ?_, command, command', h, h', (hsame _ _ h h').2.2.2⟩
  exact ((compile_of_other_rules {} (fun _ => false) inputs hrules hothers hplain).1 _).mp
    (by decide +kernel)

end Schema

end ContainerCommand
