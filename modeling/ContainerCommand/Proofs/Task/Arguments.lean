import ContainerCommand.Proofs.Command.Compilation
import ContainerCommand.Proofs.Resolution.Walk

/-! The arguments of a task's command.

The parameters of the container runtime come first: mounts, image and the command inside
the container lead in the merged schema, and what leads in the tool's own schema is moved
behind them (`Schema.precedes_shift_of_merge`). So whatever a tool declares, the arguments
are the words that start the runtime, a word and a specification for each mount, the image,
the command, and only then words of the tool (`argv_of_compile`). -/
namespace ContainerCommand
open Template

/-! ### The tokens of the container runtime -/

/-- A template that shows a value as it is shows it as one word. -/
theorem Parameter.token_slotted (p : Parameter) {raw : String} {front back : List String}
    {isRepeated : Bool} {value : Value} (h : ∀ items, value ≠ .list items) :
    let t : Argument := ⟨raw, .slotted front "" .text "" back, isRepeated⟩
    p.token t value = .ok ⟨p.name, front ++ value.display :: back,
      if t.isRedirect then .redirect value.display else .argument⟩ := by
  intro t
  have hconvert : Argument.convert .text value = .ok value.display := by
    cases value with
    | list items => exact absurd rfl (h items)
    | _ => rfl
  have hfill : t.fill p.name value = .ok (front ++ value.display :: back) := by
    simp only [t, Argument.fill, Body.conversion?, hconvert, Body.fill, String.empty_append,
      String.append_empty]
  simp only [Parameter.token, hfill, bind_eq_ok_iff, pure_eq_ok_iff, Except.ok.injEq,
    exists_eq_left']

namespace Schema

variable {schema : Schema} {launcher : Launcher} {isOnHost : String → Bool} {inputs : Inputs}
  {rules used : List MountRule} {piece : Parameter → List Token} {command : Command}

namespace Compiles

/-- A parameter that is not derived and requires nothing shows its input. -/
theorem shows_of_input (hc : schema.Compiles launcher isOnHost inputs rules used piece command)
    {p : Parameter} (hp : p ∈ schema.params) (hsource : p.nameSource = none)
    (hrequires : p.requires = []) {value : Value} {t : Argument} (ht : p.argument = some t)
    (hvalue : (schema.effectiveInputs inputs used).get? p.name = some value) :
    p.Shows used t value (piece p) := by
  have hresolved := (resolves_of_resolve hc.resolved).get?_of_plain hp hsource hrequires
  rw [hvalue, Option.map_some] at hresolved
  have hpiece := hc.pieces p hp
  rw [Parameter.tokens_eq_ok_iff (Parameter.isShownIn_iff.mpr ⟨_, t, hresolved, rfl, ht⟩)] at hpiece
  obtain ⟨r, t', hr, ht', hshows⟩ := hpiece
  rw [hresolved, Option.some.injEq] at hr
  rw [ht, Option.some.injEq] at ht'
  subst hr ht'
  exact hshows

theorem piece_eq_nil_of_no_input
    (hc : schema.Compiles launcher isOnHost inputs rules used piece command) {p : Parameter}
    (hp : p ∈ schema.params) (hsource : p.nameSource = none) (hrequires : p.requires = [])
    (hvalue : (schema.effectiveInputs inputs used).get? p.name = none) : piece p = [] := by
  have hresolved := (resolves_of_resolve hc.resolved).get?_of_plain hp hsource hrequires
  rw [hvalue, Option.map_none] at hresolved
  have hpiece := hc.pieces p hp
  rw [Parameter.tokens_eq_nil (by simp [Parameter.isShownIn, hresolved])] at hpiece
  exact (Except.ok.inj hpiece).symm

/-- The mounts show a word and a specification for each rule in use. -/
theorem piece_mountsParam (hc : schema.Compiles launcher isOnHost inputs rules used piece command)
    (hp : mountsParam ∈ schema.params) :
    piece mountsParam = used.map fun rule => ⟨mountsName, ["-B", rule.spec], .argument⟩ := by
  have hmounts : schema.contains mountsName = true := contains_iff.mpr ⟨_, hp, rfl⟩
  rcases get?_effectiveInputs_mounts hmounts hc.rules with hvalue | ⟨rfl, hvalue⟩
  · have hshows := hc.shows_of_input hp rfl rfl rfl hvalue
    have hlist : mountsParam.Shows used ⟨"-B %s...", .slotted ["-B"] "" .text "" [], true⟩
        (.list (used.map MountRule.spec))
        (used.map fun rule => ⟨mountsName, ["-B", rule.spec], .argument⟩) := by
      refine .pathList rfl ?_
      rw [List.forall₂_map_left_iff, List.forall₂_map_right_iff, List.forall₂_same]
      intro rule _
      exact mountsParam.token_slotted (fun _ h => by cases h)
    rw [← Parameter.emit_eq_ok_iff] at hshows hlist
    exact Except.ok.inj (hshows.symm.trans hlist)
  · exact hc.piece_eq_nil_of_no_input hp rfl rfl hvalue

theorem piece_imageParam (hc : schema.Compiles launcher isOnHost inputs rules used piece command)
    (hp : imageParam ∈ schema.params) :
    ∃ image, inputs.get? imageParam.name = some (.text image) ∧
      piece imageParam = [⟨imageParam.name, [image], .argument⟩] := by
  have hresolves := resolves_of_resolve hc.resolved
  have hinput : (schema.effectiveInputs inputs used).get? imageParam.name =
    inputs.get? imageParam.name := get?_effectiveInputs_of_ne (by decide)
  obtain ⟨r, hr⟩ := hresolves.mandatory imageParam hp rfl
  have hfits := hresolves.fits imageParam hp r hr
  rw [hresolves.get?_of_plain hp rfl rfl, Option.map_eq_some_iff] at hr
  obtain ⟨value, hvalue, rfl⟩ := hr
  have hshows := hc.shows_of_input hp rfl rfl rfl hvalue
  rw [hinput] at hvalue
  cases value with
  | text image =>
    have himage : imageParam.Shows used .bare (.text image)
        [⟨imageParam.name, [image], .argument⟩] :=
      .path rfl (imageParam.token_slotted (fun _ h => by cases h))
    rw [← Parameter.emit_eq_ok_iff] at hshows himage
    exact ⟨image, hvalue, Except.ok.inj (hshows.symm.trans himage)⟩
  | _ => cases hfits

/-- The command inside the container is shown as one word, if there is one. -/
theorem piece_commandParam (hc : schema.Compiles launcher isOnHost inputs rules used piece command)
    (hp : commandParam ∈ schema.params) :
    piece commandParam = ((inputs.get? commandName).map fun value =>
      (⟨commandName, [value.display], .argument⟩ : Token)).toList := by
  have hinput : (schema.effectiveInputs inputs used).get? commandName = inputs.get? commandName :=
    get?_effectiveInputs_of_ne (by decide)
  cases hvalue : inputs.get? commandName with
  | none => exact hc.piece_eq_nil_of_no_input hp rfl rfl (hinput.trans hvalue)
  | some value =>
    have hshows := hc.shows_of_input hp rfl rfl rfl (hinput.trans hvalue)
    have hresolves := resolves_of_resolve hc.resolved
    have hfits := hresolves.fits commandParam hp ⟨value, .explicit, false⟩ (by
      rw [hresolves.get?_of_plain hp rfl rfl]
      exact congrArg _ (hinput.trans hvalue))
    have hcommand : commandParam.Shows used .bare value
        [⟨commandName, [value.display], .argument⟩] := by
      refine .scalar rfl (commandParam.token_slotted ?_)
      rintro items rfl
      cases hfits
    rw [← Parameter.emit_eq_ok_iff] at hshows hcommand
    exact Except.ok.inj (hshows.symm.trans hcommand)

/-- The redirection of the output is no argument. -/
theorem isRedirect_of_mem_piece_logParam
    (hc : schema.Compiles launcher isOnHost inputs rules used piece command)
    (hp : logParam ∈ schema.params) {token : Token} (hmem : token ∈ piece logParam) :
    token.isRedirect = true := by
  cases hvalue : (schema.effectiveInputs inputs used).get? logParam.name with
  | none =>
    rw [hc.piece_eq_nil_of_no_input hp rfl rfl hvalue] at hmem
    cases hmem
  | some value =>
    have hshows := hc.shows_of_input hp rfl rfl rfl hvalue
    generalize piece logParam = tokens at hshows hmem
    cases hshows with
    | @path host shown _ htoken =>
      have hshown := (logParam.token_slotted (fun _ h => by cases h)).symm.trans htoken
      rw [List.mem_singleton.mp hmem, ← Except.ok.inj hshown]
      rfl
    | scalar hkind => cases hkind
    | pathList hkind => cases hkind
    | on hswitch => cases hswitch
    | off hswitch => cases hswitch

theorem piece_debugParam (hc : schema.Compiles launcher isOnHost inputs rules used piece command)
    (hp : debugParam ∈ schema.params) : piece debugParam = [] := by
  have hpiece := hc.pieces debugParam hp
  rw [Parameter.tokens_eq_nil rfl] at hpiece
  exact (Except.ok.inj hpiece).symm

/-- The runtime is asked for messages exactly if the input says so. -/
theorem launch_eq (hc : schema.Compiles launcher isOnHost inputs rules used piece command)
    (hp : debugParam ∈ schema.params) :
    command.launch = launcher.words (inputs.get? debugName = some (.bool true)) := by
  have hresolves := resolves_of_resolve hc.resolved
  have hinput : (schema.effectiveInputs inputs used).get? debugName = inputs.get? debugName :=
    get?_effectiveInputs_of_ne (by decide)
  have hresolved : command.resolved.get? debugName =
      (inputs.get? debugName).map fun value => ⟨value, .explicit, false⟩ :=
    hinput ▸ hresolves.get?_of_plain hp rfl rfl
  rw [hc.launch, Resolution.isTruthy, Resolution.value?, hresolved]
  cases hvalue : inputs.get? debugName with
  | none => simp
  | some value =>
    rw [hvalue] at hresolved
    have hfits := hresolves.fits debugParam hp _ hresolved
    cases value with
    | bool b => simp [Value.isTruthy]
    | _ => cases hfits

end Compiles

end Schema

namespace TaskType

variable {task : TaskType} {launcher : Launcher} {isOnHost : String → Bool} {inputs : Inputs}
  {rules : List MountRule} {command : Command} {merged : Schema}

theorem get?_withCommand (name : String) :
    (task.withCommand inputs).get? name =
      if name = commandName then (inputs.get? commandName).or (task.command.map .text)
      else inputs.get? name := by
  unfold withCommand Table.contains
  cases task.command with
  | none =>
    by_cases hname : name = commandName
    · simp [hname]
    · simp [hname]
  | some command =>
    cases hgiven : inputs.get? commandName with
    | some value =>
      by_cases hname : name = commandName
      · simp [hname, hgiven]
      · simp [hname]
    | none => simp [Table.get?_insert]

/-- The task type's command has no part in the mounts. -/
theorem uses_withCommand_iff {schema : Schema} {used : List MountRule} :
    schema.Uses (task.withCommand inputs) rules used ↔ schema.Uses inputs rules used := by
  have hinput : (task.withCommand inputs).get? mountsName = inputs.get? mountsName := by
    rw [get?_withCommand, if_neg (by decide)]
  rw [← Schema.effectiveRules_eq_ok_iff, ← Schema.effectiveRules_eq_ok_iff,
    Schema.effectiveRules_congr hinput]

/-! ### The order of a task's parameters -/

theorem mem_merged_iff (h : task.merged baseSchema = .ok merged) {p : Parameter} :
    p ∈ merged.params ↔
      p ∈ baseParams ∨ ∃ q ∈ task.schema.params, q.shift baseSchema.maxLeading = p := by
  rw [Schema.params_merge h, List.mem_append, List.mem_map]
  rfl

/-- The parameters of the container runtime that lead. -/
def leadingParams : List Parameter := [mountsParam, imageParam, commandParam]

theorem mem_leadingParams_iff {p : Parameter} :
    p ∈ leadingParams ↔ p = mountsParam ∨ p = imageParam ∨ p = commandParam := by
  simp [leadingParams]

theorem mem_baseParams_iff {p : Parameter} :
    p ∈ baseParams ↔ p ∈ leadingParams ∨ p = debugParam ∨ p = logParam := by
  simp only [baseParams, leadingParams, List.mem_cons, List.not_mem_nil, or_false]
  grind

theorem leads_of_mem_leadingParams {p : Parameter} (hp : p ∈ leadingParams) :
    ∃ n, p.position = some n ∧ 0 ≤ n := by
  rcases mem_leadingParams_iff.mp hp with rfl | rfl | rfl
  · exact ⟨1, rfl, by decide⟩
  · exact ⟨2, rfl, by decide⟩
  · exact ⟨3, rfl, by decide⟩

theorem pairwise_leadingParams (schema : Schema) : leadingParams.Pairwise schema.Precedes := by
  refine .cons ?_ (.cons ?_ (.cons (List.forall_mem_nil _) .nil))
  · rw [List.forall_mem_cons, List.forall_mem_singleton]
    exact ⟨.position rfl rfl rfl (by decide : (1 : Int) < 2),
      .position rfl rfl rfl (by decide : (1 : Int) < 3)⟩
  · rw [List.forall_mem_singleton]
    exact .position rfl rfl rfl (by decide : (2 : Int) < 3)

theorem mem_merged_of_leading (h : task.merged baseSchema = .ok merged) {p : Parameter}
    (hp : p ∈ leadingParams) : p ∈ merged.params :=
  (mem_merged_iff h).mpr (.inl (mem_baseParams_iff.mpr (.inl hp)))

/-- **Mounts, image and command stand in front**, whatever positions the tool declares. -/
theorem ordered_merged (h : task.merged baseSchema = .ok merged) :
    ∃ rest, merged.ordered = leadingParams ++ rest ∧
      ∀ p ∈ rest, p = debugParam ∨ p = logParam ∨
        ∃ q ∈ task.schema.params, q.shift baseSchema.maxLeading = p := by
  have hmem : ∀ p ∈ leadingParams, p ∈ merged.ordered := fun p hp =>
    Schema.ordered_perm.mem_iff.mpr (mem_merged_of_leading h hp)
  have hcases : ∀ q ∈ merged.ordered, q ∉ leadingParams → q = debugParam ∨ q = logParam ∨
      ∃ r ∈ task.schema.params, r.shift baseSchema.maxLeading = q := by
    intro q hq hrest
    rcases (mem_merged_iff h).mp (Schema.ordered_perm.mem_iff.mp hq) with hq | hq
    · rcases mem_baseParams_iff.mp hq with hq | rfl | rfl
      · exact absurd hq hrest
      · exact .inl rfl
      · exact .inr (.inl rfl)
    · exact .inr (.inr hq)
  have hbefore : ∀ p ∈ leadingParams, ∀ q ∈ merged.ordered, q ∉ leadingParams →
      merged.Precedes p q := by
    intro p hp q hq hrest
    obtain ⟨n, hn, hleads⟩ := leads_of_mem_leadingParams hp
    have hrank : p.group.rank = 0 := by rw [Parameter.rank_of_position_eq_some hn, if_pos hleads]
    rcases hcases q hq hrest with rfl | rfl | ⟨r, hr, rfl⟩
    · exact .group (by rw [hrank]; decide)
    · exact .group (by rw [hrank]; decide)
    · exact Schema.precedes_shift_of_merge h (mem_baseParams_iff.mpr (.inl hp)) hn hleads hr
  obtain ⟨rest, hrest⟩ := Schema.exists_eq_append_of_precedes Schema.pairwise_ordered hmem
    (pairwise_leadingParams merged) hbefore
  have hnodup : merged.ordered.Nodup := Schema.ordered_perm.nodup_iff.mpr Schema.nodup_params
  rw [hrest, List.nodup_append] at hnodup
  refine ⟨rest, hrest, fun p hp => hcases p (by rw [hrest]; exact List.mem_append_right _ hp) ?_⟩
  exact fun hfront => hnodup.2.2 p hfront p hp rfl

/-! ### The arguments -/

/-- The tool declares none of the leading parameters. -/
theorem filter_tokens_of_leadingParams (h : task.merged baseSchema = .ok merged)
    {used : List MountRule} {piece : Parameter → List Token}
    (hc : merged.Compiles launcher isOnHost inputs rules used piece command) :
    (leadingParams.flatMap piece).filter (fun token =>
      task.schema.contains token.param && !token.isRedirect) = [] := by
  rw [List.filter_eq_nil_iff]
  intro token hmem
  obtain ⟨p, hp, hmem⟩ := List.mem_flatMap.mp hmem
  rw [Parameter.param_of_mem_tokens (hc.pieces p (mem_merged_of_leading h hp)) hmem,
    Schema.contains_eq_false_of_merge h (mem_baseParams_iff.mpr (.inl hp))]
  exact Bool.false_ne_true

/-- What stands behind the leading parameters is passed on only if the tool declares it. -/
theorem filter_tokens_of_rest (h : task.merged baseSchema = .ok merged) {used : List MountRule}
    {piece : Parameter → List Token}
    (hc : merged.Compiles launcher isOnHost inputs rules used piece command)
    {rest : List Parameter} (hrest : ∀ p ∈ rest, p = debugParam ∨ p = logParam ∨
      ∃ q ∈ task.schema.params, q.shift baseSchema.maxLeading = p) :
    (rest.flatMap piece).filter (!·.isRedirect) =
      (rest.flatMap piece).filter fun token =>
        task.schema.contains token.param && !token.isRedirect := by
  have hbase : ∀ p ∈ baseParams, p ∈ merged.params := fun p hp =>
    (mem_merged_iff h).mpr (.inl hp)
  refine List.filter_congr fun token hmem => ?_
  obtain ⟨p, hp, hmem⟩ := List.mem_flatMap.mp hmem
  rcases hrest p hp with rfl | rfl | ⟨q, hq, rfl⟩
  · rw [hc.piece_debugParam (hbase _ (by simp [baseParams]))] at hmem
    cases hmem
  · rw [hc.isRedirect_of_mem_piece_logParam (hbase _ (by simp [baseParams])) hmem]
    simp
  · have hmerged : q.shift baseSchema.maxLeading ∈ merged.params :=
      (mem_merged_iff h).mpr (.inr ⟨q, hq, rfl⟩)
    rw [Parameter.param_of_mem_tokens (hc.pieces _ hmerged) hmem, Parameter.name_shift,
      Schema.contains_iff.mpr ⟨q, hq, rfl⟩, Bool.true_and]

/-- The leading parameters show the mounts in use, the image and the command. -/
theorem words_of_leadingParams {schema : Schema} {used : List MountRule}
    {piece : Parameter → List Token}
    (hc : schema.Compiles launcher isOnHost inputs rules used piece command)
    (hbase : ∀ p ∈ leadingParams, p ∈ schema.params) :
    ∃ image, inputs.get? imageParam.name = some (.text image) ∧
      ((leadingParams.flatMap piece).filter (!·.isRedirect)).flatMap Token.words =
        used.flatMap (fun rule => ["-B", rule.spec]) ++ [image] ++
        ((inputs.get? commandName).map Value.display).toList := by
  have hmounts := hc.piece_mountsParam (hbase _ (by simp [leadingParams]))
  obtain ⟨image, hvalue, himage⟩ := hc.piece_imageParam (hbase _ (by simp [leadingParams]))
  have hcommand := hc.piece_commandParam (hbase _ (by simp [leadingParams]))
  refine ⟨image, hvalue, ?_⟩
  simp only [leadingParams, List.flatMap_cons, List.flatMap_nil, List.append_nil, hmounts, himage,
    hcommand, List.filter_append, List.flatMap_append]
  have hwords : ((used.map fun rule =>
      (⟨mountsName, ["-B", rule.spec], .argument⟩ : Token)).filter (!·.isRedirect)).flatMap
        Token.words = used.flatMap fun rule => ["-B", rule.spec] := by
    rw [List.filter_eq_self.mpr (by simp [Token.isRedirect, Token.target?]), List.flatMap_map]
  rw [hwords, List.append_assoc]
  cases inputs.get? commandName <;> rfl

/-- **The arguments of a task's command** are the words that start the runtime, the mounts in use,
the image and the command inside the container, followed by words of the tool's parameters alone.
A tool that brings no command of its own is one whose `command` is `none`. -/
theorem argv_of_compile
    (h : task.compile baseSchema launcher isOnHost inputs rules = .ok command) :
    ∃ merged used image, task.merged baseSchema = .ok merged ∧
      merged.Uses inputs rules used ∧
      inputs.get? "container" = some (.text image) ∧
      command.argv =
        [launcher.binary] ++
        (if inputs.get? debugName = some (.bool true) then [launcher.debugToken] else []) ++
        [launcher.subcommand] ++
        used.flatMap (fun rule => ["-B", rule.host ++ ":" ++ rule.container]) ++
        [image] ++
        (((inputs.get? commandName).or (task.command.map .text)).map Value.display).toList ++
        (command.tokens.filter fun token =>
          task.schema.contains token.param && !token.isRedirect).flatMap Token.words := by
  obtain ⟨merged, hmerged, hcompile⟩ := bind_eq_ok_iff.mp h
  obtain ⟨used, piece, hc⟩ := Schema.compile_eq_ok_iff.mp hcompile
  have hdebug := hc.launch_eq ((mem_merged_iff hmerged).mpr (.inl (by simp [baseParams])))
  obtain ⟨image, himage, hwords⟩ :=
    words_of_leadingParams hc fun p hp => mem_merged_of_leading hmerged hp
  rw [get?_withCommand, if_neg (by decide)] at hdebug himage
  rw [get?_withCommand, if_pos rfl] at hwords
  obtain ⟨rest, hordered, hrest⟩ := ordered_merged hmerged
  have htokens : command.tokens = leadingParams.flatMap piece ++ rest.flatMap piece := by
    rw [hc.tokens, hordered, List.flatMap_append]
  refine ⟨merged, used, image, hmerged, uses_withCommand_iff.mp hc.rules, himage, ?_⟩
  calc command.argv
      = command.launch ++ ((leadingParams.flatMap piece).filter (!·.isRedirect)).flatMap Token.words
          ++ ((rest.flatMap piece).filter (!·.isRedirect)).flatMap Token.words := by
        rw [Command.argv, htokens, List.filter_append, List.flatMap_append, List.append_assoc]
    _ = _ := by
        rw [hdebug, hwords, filter_tokens_of_rest hmerged hc hrest, htokens, List.filter_append,
          filter_tokens_of_leadingParams hmerged hc, List.nil_append]
        simp [Launcher.words, MountRule.spec, List.append_assoc]

/-- The tool's parameter has position zero, which ties with the command inside the container. -/
theorem argv_of_compile_tie :
    let subject : Parameter :=
      { name := "subject", kind := .scalar, argument := some .bare, position := some 0 }
    let tool : TaskType := ⟨"tool", "A tool", some "tool", ⟨[subject], by decide, by decide⟩⟩
    let inputs : Inputs := .ofList
      [("container", .text "/images/tool.sif"), ("debug", .bool true), ("subject", .int 7)]
    ∃ command, tool.compile baseSchema {} (fun _ => true) inputs [⟨"/data", "/mnt"⟩] = .ok command ∧
      ∃ merged used image, tool.merged baseSchema = .ok merged ∧
        merged.Uses inputs [⟨"/data", "/mnt"⟩] used ∧
        inputs.get? "container" = some (.text image) ∧
        command.argv =
          ["singularity"] ++
          (if inputs.get? debugName = some (.bool true) then ["--debug"] else []) ++
          ["run"] ++
          used.flatMap (fun rule => ["-B", rule.host ++ ":" ++ rule.container]) ++
          [image] ++
          (((inputs.get? commandName).or (some (.text "tool"))).map Value.display).toList ++
          (command.tokens.filter fun token =>
            tool.schema.contains token.param && !token.isRedirect).flatMap Token.words := by
  intro subject tool inputs
  obtain ⟨command, h⟩ : ∃ command,
      tool.compile baseSchema {} (fun _ => true) inputs [⟨"/data", "/mnt"⟩] = .ok command :=
    exists_eq_ok_of_isOk (by decide +kernel)
  exact ⟨command, h, argv_of_compile h⟩

end TaskType

end ContainerCommand
