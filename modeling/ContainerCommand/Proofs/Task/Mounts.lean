import ContainerCommand.Proofs.Command.Provenance
import ContainerCommand.Proofs.Task.Arguments
import ContainerCommand.Task.Run

/-! The mounts of a task.

The configuration, the task file and the input for the mounts all write rules, as texts or, but for
the input, as pairs. Which of them writes the rules makes no difference to the command, and the
input is of no account where the others write any (`TaskFile.compile_mounts`). -/
namespace ContainerCommand

namespace TaskType

variable {task : TaskType} {launcher : Launcher} {isOnHost : String → Bool} {inputs other : Inputs}
  {rules others used : List MountRule} {command : Command}

theorem mountsParam_mem_merged {merged : Schema} (h : task.merged baseSchema = .ok merged) :
    mountsParam ∈ merged.params :=
  mem_merged_of_leading h (mem_leadingParams_iff.mpr (.inl rfl))

theorem agreesBut_withCommand (h : inputs.AgreesBut mountsName other) :
    (task.withCommand inputs).AgreesBut mountsName (task.withCommand other) := by
  intro name hname
  rw [get?_withCommand, get?_withCommand]
  split
  · rw [h commandName (by decide)]
  · exact h name hname

/-- Tasks that use the same rules, and have the same inputs otherwise, have the same command. -/
theorem compile_congr_of_uses (hused : used ≠ []) (h : inputs.AgreesBut mountsName other)
    (hrules : ∀ schema : Schema, schema.contains mountsName = true →
      schema.Uses inputs rules used)
    (hothers : ∀ schema : Schema, schema.contains mountsName = true →
      schema.Uses other others used) :
    task.compile baseSchema launcher isOnHost inputs rules =
      task.compile baseSchema launcher isOnHost other others := by
  unfold compile
  cases hmerged : task.merged baseSchema with
  | error e => rfl
  | ok merged =>
    have hmounts : merged.contains mountsName = true :=
      Schema.contains_iff.mpr ⟨mountsParam, mountsParam_mem_merged hmerged, rfl⟩
    exact Schema.compile_congr_of_uses launcher isOnHost hmounts hused (agreesBut_withCommand h)
      (uses_withCommand_iff.mpr (hrules merged hmounts))
      (uses_withCommand_iff.mpr (hothers merged hmounts))

/-- Given rules are used whatever the input for the mounts is. -/
theorem compile_congr_of_given (hrules : rules ≠ []) (h : inputs.AgreesBut mountsName other) :
    task.compile baseSchema launcher isOnHost inputs rules =
      task.compile baseSchema launcher isOnHost other rules :=
  compile_congr_of_uses hrules h (fun _ _ => .given hrules) (fun _ _ => .given hrules)

/-- Rules may be given or written by the input for the mounts. -/
theorem compile_insert_mounts {entries : List String} (hrules : rules ≠ [])
    (hentries : MountRule.parseAll entries = .ok rules) :
    task.compile baseSchema launcher isOnHost inputs rules =
      task.compile baseSchema launcher isOnHost (inputs.insert mountsName (.list entries)) [] := by
  -- On one side the rules in use are given, on the other they are written.
  refine compile_congr_of_uses hrules (inputs.agreesBut_insert _ _) (fun _ _ => .given hrules)
    fun _ hmounts => .written rfl hmounts ?_ (.list entries) (mapM_eq_ok_iff.mp hentries)
  rw [Table.get?_insert, if_pos rfl]

/-- The mounts of a command are shown by the rules that translate its paths, each as it was
written. -/
theorem tokensOf_mounts_of_compile
    (h : task.compile baseSchema launcher isOnHost inputs rules = .ok command)
    (hrules : ∀ rule ∈ rules, MountRule.parse rule.spec = .ok rule) :
    ∃ merged used, task.merged baseSchema = .ok merged ∧ merged.Uses inputs rules used ∧
      (∀ p ∈ merged.params, p.tokens used command.resolved = .ok (command.tokensOf p.name)) ∧
      List.Forall₂ (fun token rule => ∃ spec, token.words = ["-B", spec] ∧
        MountRule.parse spec = .ok rule) (command.tokensOf mountsName) used := by
  obtain ⟨merged, hmerged, hcompile⟩ := bind_eq_ok_iff.mp h
  obtain ⟨used, piece, hc⟩ := Schema.compile_eq_ok_iff.mp hcompile
  have hmounts : mountsParam ∈ merged.params := mountsParam_mem_merged hmerged
  have htokens : command.tokensOf mountsName =
      used.map fun rule => ⟨mountsName, ["-B", rule.spec], .argument⟩ :=
    (hc.tokensOf_eq hmounts).trans (hc.piece_mountsParam hmounts)
  refine ⟨merged, used, hmerged, uses_withCommand_iff.mp hc.rules, fun p hp => ?_, ?_⟩
  · rw [hc.tokensOf_eq hp, hc.pieces p hp]
  · rw [htokens, List.forall₂_map_left_iff, List.forall₂_same]
    exact fun rule hrule => ⟨rule.spec, rfl, hc.rules.parse_spec hrules rule hrule⟩

end TaskType

namespace TaskFile

variable {file other : TaskFile} {config otherConfig : Config} {registry : Registry}
  {isOnHost : String → Bool} {site : List MountEntry} {rules others : List MountRule}

/-- The rules of a task are those of all its entries, the configuration's first. -/
theorem mountRules_eq_ok_iff :
    file.mountRules site = .ok rules ↔
      MountRule.parseAll ((site ++ file.mounts).map MountEntry.text) = .ok rules := by
  rw [← MountEntry.toRules_eq_parseAll, MountEntry.toRules, List.mapM_append]
  simp only [mountRules, bind_eq_ok_iff, pure_eq_ok_iff, Outcome.during_eq_ok_iff,
    Outcome.ofCompile_eq_ok_iff, MountEntry.toRules]

theorem compile_eq_ok_iff {compiled : CompiledTask} :
    file.compile config registry isOnHost = .ok compiled ↔
      ∃ task rules, file.taskType registry = .ok task ∧ file.mountRules config.mounts = .ok rules ∧
        task.compile registry.base config.launcher isOnHost file.inputs rules =
          .ok compiled.command ∧
        task.name = compiled.task := by
  simp only [compile, bind_eq_ok_iff, pure_eq_ok_iff, Outcome.during_eq_ok_iff,
    Outcome.ofCompile_eq_ok_iff]
  constructor
  · rintro ⟨task, htask, rules, hrules, command, hcommand, rfl⟩
    exact ⟨task, rules, htask, hrules, hcommand, rfl⟩
  · rintro ⟨task, rules, htask, hrules, hcommand, hname⟩
    exact ⟨task, htask, rules, hrules, compiled.command, hcommand, by rw [hname]⟩

/-- Task files of one task type compile alike if the task type compiles alike what they give it. -/
theorem compile_congr (htask : file.taskType registry = other.taskType registry)
    (hrules : file.mountRules config.mounts = .ok rules)
    (hothers : other.mountRules otherConfig.mounts = .ok others)
    (h : ∀ task : TaskType,
      task.compile registry.base config.launcher isOnHost file.inputs rules =
        task.compile registry.base otherConfig.launcher isOnHost other.inputs others) :
    file.compile config registry isOnHost = other.compile otherConfig registry isOnHost := by
  simp only [compile, htask, hrules, hothers, bind, Except.bind, h]

/-- Entries may be written by configuration and task file or by the input for the mounts. -/
theorem compile_eq_compile_insert_mounts (hbase : registry.base = baseSchema)
    {entries : List String} (hentries : entries ≠ [])
    (hparse : ∀ entry ∈ entries, ∃ rule, MountRule.parse entry = .ok rule)
    {own : List MountEntry} (hwritten : (site ++ own).map MountEntry.text = entries) :
    { file with mounts := own }.compile { config with mounts := site } registry isOnHost =
      { file with mounts := [], inputs := file.inputs.insert mountsName (.list entries) }.compile
        { config with mounts := [] } registry isOnHost := by
  obtain ⟨rules, hrules⟩ := exists_mapM_eq_ok_iff.mpr hparse
  have hne : rules ≠ [] := by
    rintro rfl
    exact hentries (List.forall₂_nil_right_iff.mp (mapM_eq_ok_iff.mp hrules))
  have hsite : { file with mounts := own }.mountRules site = .ok rules := by
    rw [mountRules_eq_ok_iff, hwritten]
    exact hrules
  refine compile_congr rfl hsite (mountRules_eq_ok_iff.mpr rfl) fun task => ?_
  rw [hbase]
  exact TaskType.compile_insert_mounts hne hrules

/-- The input for the mounts is of no account where configuration or task file have any, whether
or not these write rules. -/
theorem compile_congr_of_mounts (hbase : registry.base = baseSchema)
    (hmounts : config.mounts ++ file.mounts ≠ []) {inputs inputs' : Inputs}
    (h : inputs.AgreesBut mountsName inputs') :
    { file with inputs := inputs }.compile config registry isOnHost =
      { file with inputs := inputs' }.compile config registry isOnHost := by
  cases hrules : file.mountRules config.mounts with
  | error failure =>
    -- Entries are read before any input is, so both fail with the same entry.
    have hfailed : ∀ given : Inputs,
        { file with inputs := given }.mountRules config.mounts = .error failure := fun _ => hrules
    simp only [compile, hfailed]
    rfl
  | ok rules =>
    have hne : rules ≠ [] := by
      rintro rfl
      have hentries := mapM_eq_ok_iff.mp (mountRules_eq_ok_iff.mp hrules)
      rw [List.forall₂_nil_right_iff, List.map_eq_nil_iff] at hentries
      exact hmounts hentries
    refine compile_congr rfl hrules hrules fun task => ?_
    rw [hbase]
    exact TaskType.compile_congr_of_given hne h

/-- **Rules count, not where they come from.** Entries that all write rules give the same result
whether configuration and task file write them, in any split and as texts or as the pairs that part
these at the first colon, or the input for the mounts lists them. Where configuration or task file
have mounts, no input for the mounts has an effect. A command shows as its mounts exactly the rules
that translate its paths. -/
theorem compile_mounts (file : TaskFile) (config : Config) (isOnHost : String → Bool)
    (hbase : registry.base = baseSchema) :
    (∀ entry rule, MountRule.parse entry = .ok rule →
      (MountEntry.pair rule.host rule.container).text = entry ∧ ':' ∉ rule.host.toList) ∧
    (∀ entries : List String, entries ≠ [] →
      (∀ entry ∈ entries, ∃ rule, MountRule.parse entry = .ok rule) →
      ∀ site own : List MountEntry, (site ++ own).map MountEntry.text = entries →
        { file with mounts := own }.compile { config with mounts := site } registry isOnHost =
          { file with
            mounts := []
            inputs := file.inputs.insert mountsName (.list entries) }.compile
              { config with mounts := [] } registry isOnHost) ∧
    (config.mounts ++ file.mounts ≠ [] → ∀ value : Value,
      { file with inputs := file.inputs.insert mountsName value }.compile config registry isOnHost =
        { file with inputs := file.inputs.erase mountsName }.compile config registry isOnHost) ∧
    (∀ compiled, file.compile config registry isOnHost = .ok compiled →
      ∃ task merged rules used, file.taskType registry = .ok task ∧
        task.merged registry.base = .ok merged ∧
        file.mountRules config.mounts = .ok rules ∧ merged.Uses file.inputs rules used ∧
        (∀ p ∈ merged.params,
          p.tokens used compiled.command.resolved = .ok (compiled.command.tokensOf p.name)) ∧
        List.Forall₂ (fun token rule => ∃ spec, token.words = ["-B", spec] ∧
          MountRule.parse spec = .ok rule) (compiled.command.tokensOf mountsName) used) := by
  refine ⟨fun entry rule => MountEntry.text_pair_of_parse,
    fun entries hentries hparse site own hwritten => ?_, fun hmounts value => ?_,
    fun compiled h => ?_⟩
  · exact compile_eq_compile_insert_mounts hbase hentries hparse hwritten
  · exact (compile_congr_of_mounts hbase hmounts
      (file.inputs.agreesBut_erase_insert mountsName value)).symm
  · obtain ⟨task, rules, htask, hrules, hcompile, -⟩ := compile_eq_ok_iff.mp h
    have hspecs := MountRule.parse_spec_of_parseAll (mountRules_eq_ok_iff.mp hrules)
    rw [hbase] at hcompile ⊢
    obtain ⟨merged, used, hmerged, hshown⟩ := TaskType.tokensOf_mounts_of_compile hcompile hspecs
    exact ⟨task, merged, rules, used, htask, hmerged, hrules, hshown⟩

/-- A pair of the configuration and a text of the task file, whose container side has a colon. -/
theorem compile_mounts_demo :
    let file : TaskFile :=
      { task := some "demo"
        tool := none
        mounts := [.joined "/data/raw:/raw:ro"]
        inputs := .ofList
          [("container", .text "/images/tool.sif"), ("inputSubject", .text "/data/raw/s.vtk")] }
    let config : Config := { mounts := [.pair "/data" "/mnt"] }
    let entries : List String := ["/data:/mnt", "/data/raw:/raw:ro"]
    let isOnHost : String → Bool := fun _ => true
    ∃ compiled, file.compile config .builtin isOnHost = .ok compiled ∧
      (MountEntry.pair "/data" "/mnt").text = "/data:/mnt" ∧ ':' ∉ "/data".toList ∧
      { file with
        mounts := []
        inputs := file.inputs.insert mountsName (.list entries) }.compile
          { config with mounts := [] } .builtin isOnHost = .ok compiled ∧
      (∀ value : Value,
        { file with inputs := file.inputs.insert mountsName value }.compile config .builtin
          isOnHost =
        { file with inputs := file.inputs.erase mountsName }.compile config .builtin isOnHost) ∧
      ∃ task merged rules used, file.taskType .builtin = .ok task ∧
        task.merged Registry.builtin.base = .ok merged ∧
        file.mountRules config.mounts = .ok rules ∧ merged.Uses file.inputs rules used ∧
        (∀ p ∈ merged.params,
          p.tokens used compiled.command.resolved = .ok (compiled.command.tokensOf p.name)) ∧
        List.Forall₂ (fun token rule => ∃ spec, token.words = ["-B", spec] ∧
          MountRule.parse spec = .ok rule) (compiled.command.tokensOf mountsName) used := by
  intro file config entries isOnHost
  obtain ⟨compiled, h⟩ : ∃ compiled, file.compile config .builtin isOnHost = .ok compiled :=
    exists_eq_ok_of_isOk (by decide +kernel)
  have hparse : ∀ entry ∈ entries, ∃ rule, MountRule.parse entry = .ok rule := by
    intro entry hentry
    refine exists_eq_ok_of_isOk ?_
    revert entry
    decide +kernel
  obtain ⟨hpair, hsame, hinput, hshown⟩ := compile_mounts file config isOnHost
    (rfl : Registry.builtin.base = baseSchema)
  obtain ⟨htext, hcolon⟩ := hpair "/data:/mnt" ⟨"/data", "/mnt"⟩ (by decide +kernel)
  exact ⟨compiled, h, htext, hcolon,
    (hsame entries (by decide) hparse config.mounts file.mounts rfl).symm.trans h,
    hinput (by decide), hshown compiled h⟩

end TaskFile

end ContainerCommand
