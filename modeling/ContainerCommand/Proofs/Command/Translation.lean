import ContainerCommand.Proofs.Command.Provenance
import ContainerCommand.Proofs.Resolution.Walk

/-! Paths of the host as the container sees them.

A parameter that is declared as a container path shows where the rules in use put its paths, one
showing for each, and its resolved value stays the path of the host (`fill_translate_of_compile`).
That holds of the kinds that take paths. A scalar can be declared as a container path too, and its
text is shown untranslated (`words_of_container_scalar`). -/
namespace ContainerCommand

namespace Parameter

variable {p : Parameter} {rules : List MountRule} {t : Template.Argument} {value : Value}
  {hosts : List String} {tokens : List Token}

/-- Each text that a value lists is shown once, in the order of the list: as the text that it is by a
scalar, and else as the path that the parameter shows for it. -/
theorem Shows.forall₂_token (h : p.Shows rules t value tokens)
    (hfits : p.kind.accepts value = true) (hlists : value.Lists hosts) :
    List.Forall₂ (fun host token =>
      p.token t (.text (if p.kind = .scalar then host else p.shownPath rules host)) = .ok token)
      hosts tokens := by
  cases h with
  | on _ => cases hlists
  | off hswitch _ =>
    cases hlists <;> cases hkind : p.kind <;>
      simp [hkind, Kind.isSwitch, Kind.accepts] at hswitch hfits
  | scalar hkind htoken =>
    cases hlists with
    | list items => simp [hkind, Kind.accepts] at hfits
    | text s => exact .cons (by rwa [if_pos hkind]) .nil
  | @path host token hpath htoken =>
    have hkind : p.kind ≠ .scalar := fun hkind => by simp [hkind, Kind.isPath] at hpath
    cases hlists
    exact .cons (by rwa [if_neg hkind]) .nil
  | pathList hkind htokens =>
    have hscalar : p.kind ≠ .scalar := by simp [hkind]
    cases hlists
    refine htokens.imp fun host token htoken => ?_
    rwa [if_neg hscalar]

end Parameter

namespace Schema

variable {schema : Schema} {launcher : Launcher} {isOnHost : String → Bool} {inputs : Inputs}
  {rules : List MountRule} {command : Command}

/-- **What a container path shows.** Each path is put into the template as the rules in use translate
it, except by a scalar, while the resolved value is what the inputs settle. -/
theorem fill_translate_of_compile
    (h : schema.compile launcher isOnHost inputs rules = .ok command) :
    ∃ used, schema.Uses inputs rules used ∧
      ∀ p ∈ schema.params, p.isContainerPath = true → p.isShownIn command.resolved = true →
        ∀ t r hosts, p.argument = some t → command.resolved.get? p.name = some r →
          r.value.Lists hosts →
            List.Forall₂ (fun host token =>
              t.fill p.name (.text (if p.kind = .scalar then host else translate used host)) =
                .ok token.words) hosts (command.tokensOf p.name) ∧
            schema.Settles (schema.effectiveInputs inputs used) p.name
              (some (r.value, r.origin)) := by
  obtain ⟨used, piece, hc⟩ := compile_eq_ok_iff.mp h
  refine ⟨used, hc.rules, fun p hp hcontainer hshown t r hosts ht hr hlists => ?_⟩
  have hresolves := resolves_of_resolve hc.resolved
  obtain ⟨r', t', hr', ht', hshows⟩ := (Parameter.tokens_eq_ok_iff hshown).mp (hc.pieces p hp)
  rw [hr, Option.some.injEq] at hr'
  rw [ht, Option.some.injEq] at ht'
  subst hr' ht'
  refine ⟨?_, hresolves.settles_iff.mpr ⟨r, hr, rfl, rfl⟩⟩
  rw [hc.tokensOf_eq hp]
  refine (hshows.forall₂_token (hresolves.fits p hp r hr) hlists).imp fun host token htoken => ?_
  rw [Parameter.shownPath, if_pos hcontainer] at htoken
  exact (Parameter.token_eq_ok_iff.mp htoken).1

/-- The rules come from an input, and one of the paths lies under none of them. -/
theorem fill_translate_of_compile_list :
    let mounts : Parameter :=
      { name := mountsName, kind := .pathList,
        argument := some ⟨"-B %s...", .slotted ["-B"] "" .text "" [], true⟩ }
    let scans : Parameter :=
      { name := "scans", kind := .pathList, isContainerPath := true,
        argument := some ⟨"--scan=%s", .slotted [] "--scan=" .text "" [], false⟩ }
    let schema : Schema := ⟨[mounts, scans], by decide, by decide⟩
    let inputs : Inputs := .ofList
      [(mountsName, .list ["/data:/mnt"]), ("scans", .list ["/data/a", "/home/b"])]
    let template : Template.Argument := ⟨"--scan=%s", .slotted [] "--scan=" .text "" [], false⟩
    let found : Resolved := { value := .list ["/data/a", "/home/b"], origin := .explicit }
    ∃ command, schema.compile {} (fun _ => true) inputs [] = .ok command ∧
      scans ∈ schema.params ∧ scans.isContainerPath = true ∧
      scans.isShownIn command.resolved = true ∧ scans.argument = some template ∧
      command.resolved.get? "scans" = some found ∧ found.value.Lists ["/data/a", "/home/b"] ∧
      ∃ used, schema.Uses inputs [] used ∧
        List.Forall₂ (fun host token =>
          template.fill "scans" (.text (translate used host)) = .ok token.words)
          ["/data/a", "/home/b"] (command.tokensOf "scans") ∧
        schema.Settles (schema.effectiveInputs inputs used) "scans"
          (some (found.value, .explicit)) := by
  intro mounts scans schema inputs template found
  obtain ⟨command, h⟩ : ∃ command, schema.compile {} (fun _ => true) inputs [] = .ok command :=
    exists_eq_ok_of_isOk (by decide +kernel)
  have hresolved : (schema.compile {} (fun _ => true) inputs []).map Command.resolved =
      .ok (.ofList [(mountsName, { value := .list ["/data:/mnt"], origin := .explicit }),
        ("scans", found)]) := by decide +kernel
  rw [h] at hresolved
  replace hresolved := Except.ok.inj hresolved
  have hmem : scans ∈ schema.params := by simp [schema]
  have hfound : command.resolved.get? "scans" = some found := by
    rw [hresolved]
    decide +kernel
  have hshown : scans.isShownIn command.resolved = true := by
    rw [hresolved]
    decide +kernel
  obtain ⟨used, hused, hall⟩ := fill_translate_of_compile h
  obtain ⟨htokens, hsettles⟩ :=
    hall scans hmem rfl hshown template found _ rfl hfound (.list ["/data/a", "/home/b"])
  exact ⟨command, h, hmem, rfl, hshown, rfl, hfound, .list _, used, hused, htokens, hsettles⟩

/-- A scalar that is declared as a container path is shown as the host has it, although the rules put
it elsewhere. -/
theorem words_of_container_scalar :
    let subject : Parameter :=
      { name := "subject", kind := .scalar, isContainerPath := true,
        argument := some ⟨"--subject %s", .slotted ["--subject"] "" .text "" [], false⟩ }
    let schema : Schema := ⟨[subject], by decide, by decide⟩
    let inputs : Inputs := .ofList [("subject", .text "/data/s1")]
    let rules : List MountRule := [⟨"/data", "/mnt"⟩]
    translate rules "/data/s1" = "/mnt/s1" ∧
      ∃ command, schema.compile {} (fun _ => true) inputs rules = .ok command ∧
        command.resolved.get? "subject" =
          some { value := .text "/data/s1", origin := .explicit } ∧
        command.tokensOf "subject" = [⟨"subject", ["--subject", "/data/s1"], .argument⟩] := by
  intro subject schema inputs rules
  refine ⟨by decide +kernel,
    ⟨["singularity", "run"], [⟨"subject", ["--subject", "/data/s1"], .argument⟩],
      .ofList [("subject", { value := .text "/data/s1", origin := .explicit })]⟩, ?_⟩
  decide +kernel

end Schema

end ContainerCommand
