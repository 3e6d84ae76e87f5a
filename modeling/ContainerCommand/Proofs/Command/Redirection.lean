import ContainerCommand.Proofs.Command.Provenance

/-! Redirections: what a command shows of them, and what it does.

A redirection shows a file in its words and sends the output to its target. The two are made apart:
the words put the value into the template under its conversion, the target is the text of the value
alone. They agree where the template leaves the value as it is (`file?_eq_target_iff`); what stands
around the placeholder is shown and not opened (`file?_ne_target_of_margin`).

Which tokens are redirections is for the template to say, except that a switch shows its words as
arguments whatever they start with. So the arguments of a command are the words of all parameters
that do not redirect (`isRedirect_iff_of_compile`), and a switch can be one of them though its words
are those of a redirection (`argv_of_redirecting_switch`). -/
namespace ContainerCommand

/-! ### The file that words name -/

namespace Template

/-- Two texts around a third add nothing to it only if both are empty. -/
theorem append_append_eq_iff {pre text post : String} :
    pre ++ text ++ post = text ↔ pre = "" ∧ post = "" := by
  constructor
  · intro h
    have hlength := congrArg String.length h
    simp only [String.length_append] at hlength
    have hpre : pre.length = 0 := by omega
    have hpost : post.length = 0 := by omega
    exact ⟨String.length_eq_zero_iff.mp hpre, String.length_eq_zero_iff.mp hpost⟩
  · rintro ⟨rfl, rfl⟩
    rw [String.append_empty, String.empty_append]

namespace Body

/-- How many `>` a template puts in front of its placeholder where that is in the first word. Those
that a value brings do not count. -/
def marks : Body → Nat
  | .slotted [] pre _ _ _ => (pre.toList.takeWhile (· == '>')).length
  | _ => 0

/-- The file that the words of a filled-in template name: the word that held the placeholder without
the template's own `>`. -/
def file? (body : Body) (words : List String) : Option String :=
  match body with
  | .literal _ => none
  | .slotted front _ _ _ _ =>
    words[front.length]?.map fun word => String.ofList (word.toList.drop body.marks)

/-- What stands before the placeholder in its word, without the template's `>`, and what stands
behind it. -/
def margins (body : Body) : String × String :=
  match body with
  | .literal _ => ("", "")
  | .slotted _ pre _ post _ => (String.ofList (pre.toList.drop body.marks), post)

/-- The file is what was put in place of the placeholder, between the margins. -/
theorem file?_fill {body : Body} {conversion : Conversion} (h : body.conversion? = some conversion)
    (text : String) :
    body.file? (body.fill text) = some (body.margins.1 ++ text ++ body.margins.2) := by
  cases body with
  | literal words => cases h
  | slotted front pre k post back =>
    -- The signs are all of the template, so dropping them leaves what was filled in.
    have hmarks : (slotted front pre k post back).marks ≤ pre.toList.length := by
      cases front with
      | nil => exact (List.takeWhile_sublist _).length_le
      | cons word rest => exact Nat.zero_le _
    have hword : (front ++ (pre ++ text ++ post) :: back)[front.length]? =
        some (pre ++ text ++ post) := by
      rw [List.getElem?_append_right (Nat.le_refl _), Nat.sub_self, List.getElem?_cons_zero]
    simp only [file?, fill, margins, hword, Option.map_some, Option.some.injEq]
    rw [String.toList_append, String.toList_append, List.append_assoc,
      List.drop_append_of_le_length hmarks, String.ofList_append, String.ofList_append,
      String.ofList_toList, String.ofList_toList, String.append_assoc]

end Body

/-- A value written as it is names itself exactly if there are no margins, under any other conversion
if its numeral and the margins together spell it. -/
theorem Body.file?_fill_eq_display_iff {body : Body} {conversion : Conversion} {value : Value}
    {text : String} (h : body.conversion? = some conversion)
    (htext : Argument.convert conversion value = .ok text) :
    body.file? (body.fill text) = some value.display ↔
      if conversion = .text then body.margins = ("", "")
      else body.margins.1 ++ text ++ body.margins.2 = value.display := by
  rw [Body.file?_fill h, Option.some.injEq]
  split
  · subst conversion
    have hdisplay : text = value.display := by
      cases value <;> simp [Argument.convert] at htext <;> exact htext.symm
    rw [hdisplay, append_append_eq_iff, Prod.ext_iff]
  · rfl

end Template

/-! ### Which tokens redirect -/

namespace Parameter

/-- Whether the tokens of the parameter redirect the output. A switch shows its words as arguments,
whatever they start with. -/
def redirects (p : Parameter) : Bool :=
  !p.kind.isSwitch && p.argument.any (·.isRedirect)

variable {p : Parameter} {rules : List MountRule} {resolution : Resolution} {tokens : List Token}
  {token : Token}

theorem isRedirect_eq_redirects (h : p.tokens rules resolution = .ok tokens)
    (hmem : token ∈ tokens) : token.isRedirect = p.redirects := by
  obtain ⟨r, t, _, ht, hshows⟩ := showsIn_of_mem_tokens h hmem
  unfold redirects
  rcases hshows.of_mem hmem with ⟨hswitch, rfl⟩ | ⟨hswitch, v, _, htoken⟩
  · rw [hswitch]
    rfl
  · obtain ⟨_, _, hrole⟩ := token_eq_ok_iff.mp htoken
    rw [hswitch, ht, Token.isRedirect, Token.target?, hrole]
    cases hredirect : t.isRedirect <;> simp [hredirect]

/-- A redirection shows the template of its parameter with a value, whose text is the target. -/
theorem exists_fill_of_isRedirect (hp : p.Sound) (h : p.tokens rules resolution = .ok tokens)
    (hmem : token ∈ tokens) (hredirect : token.isRedirect = true) :
    ∃ t r value conversion text, p.argument = some t ∧ resolution.get? p.name = some r ∧
      p.Fills rules r.value value ∧ t.body.conversion? = some conversion ∧
      Template.Argument.convert conversion value = .ok text ∧
      token = ⟨p.name, t.body.fill text, .redirect value.display⟩ := by
  obtain ⟨r, t, hr, ht, hshows⟩ := showsIn_of_mem_tokens h hmem
  rcases hshows.of_mem hmem with ⟨_, rfl⟩ | ⟨hswitch, v, hfills, htoken⟩
  · cases hredirect
  · obtain ⟨hwords, hparam, hrole⟩ := token_eq_ok_iff.mp htoken
    have hplaceholder := (hp.argument t ht).placeholder
    rw [hswitch, Bool.not_false, Template.Argument.hasPlaceholder] at hplaceholder
    rcases Template.Argument.fill_eq_ok_iff.mp hwords with ⟨hnone, _⟩ | ⟨k, text, hk, htext, hfill⟩
    · rw [hnone] at hplaceholder
      cases hplaceholder
    · refine ⟨t, r, v, k, text, ht, hr, hfills, hk, htext, ?_⟩
      cases htemplate : t.isRedirect with
      | true =>
        rw [htemplate, if_pos rfl] at hrole
        rw [← hparam, ← hfill, ← hrole]
      | false =>
        rw [htemplate, if_neg Bool.false_ne_true] at hrole
        rw [Token.isRedirect, Token.target?, hrole] at hredirect
        cases hredirect

end Parameter

/-- The output goes to the target of the last redirection. -/
theorem Command.redirectTarget_eq_some_iff {command : Command} {target : String} :
    command.redirectTarget = some target ↔
      ∃ front token back, command.tokens = front ++ token :: back ∧
        token.target? = some target ∧ ∀ other ∈ back, other.isRedirect = false := by
  rw [redirectTarget, List.getLast?_filterMap, List.findSome?_eq_some_iff]
  constructor
  · rintro ⟨back, token, front, htokens, htarget, hback⟩
    refine ⟨front.reverse, token, back.reverse, ?_, htarget, fun other hother => ?_⟩
    · rw [← List.reverse_reverse command.tokens, htokens, List.reverse_append,
        List.reverse_cons, List.append_assoc, List.singleton_append]
    · rw [Token.isRedirect, hback other (List.mem_reverse.mp hother)]
      rfl
  · rintro ⟨front, token, back, htokens, htarget, hback⟩
    refine ⟨back.reverse, token, front.reverse, ?_, htarget, fun other hother => ?_⟩
    · rw [htokens, List.reverse_append, List.reverse_cons, List.append_assoc,
        List.singleton_append]
    · simpa [Token.isRedirect] using hback other (List.mem_reverse.mp hother)

namespace Schema

variable {schema : Schema} {launcher : Launcher} {isOnHost : String → Bool} {inputs : Inputs}
  {rules : List MountRule} {command : Command}

open Template (Argument)

/-! ### What is shown and what is opened -/

/-- **When a redirection opens the file that it shows.** Under `%s` it does exactly if nothing stands
around the placeholder, under a numeral conversion if the numeral between the margins spells the
value. The invocation opens the target of the last redirection. -/
theorem file?_eq_target_iff
    (h : schema.compile launcher isOnHost inputs rules = .ok command) :
    (∃ used, schema.Uses inputs rules used ∧
      ∀ token ∈ command.tokens, token.isRedirect = true →
        ∃ p ∈ schema.params, ∃ t r value conversion text,
          p.argument = some t ∧ command.resolved.get? p.name = some r ∧
          p.Fills used r.value value ∧ t.body.conversion? = some conversion ∧
          Argument.convert conversion value = .ok text ∧
          token = ⟨p.name, t.body.fill text, .redirect value.display⟩ ∧
          (t.body.file? token.words = token.target? ↔
            if conversion = .text then t.body.margins = ("", "")
            else t.body.margins.1 ++ text ++ t.body.margins.2 = value.display)) ∧
      ∀ target, command.invocation.redirect = some target →
        ∃ front token back, command.tokens = front ++ token :: back ∧
          token.target? = some target ∧ ∀ other ∈ back, other.isRedirect = false := by
  obtain ⟨used, piece, hc⟩ := compile_eq_ok_iff.mp h
  refine ⟨⟨used, hc.rules, fun token hmem hredirect => ?_⟩, fun target htarget =>
    Command.redirectTarget_eq_some_iff.mp htarget⟩
  obtain ⟨p, hp, hmem⟩ := hc.exists_mem_piece hmem
  have hsound : p.Sound := Parameter.fault?_eq_none_iff.mp (schema.sound p hp)
  obtain ⟨t, r, value, conversion, text, ht, hr, hfills, hk, htext, rfl⟩ :=
    Parameter.exists_fill_of_isRedirect hsound (hc.pieces p hp) hmem hredirect
  exact ⟨p, hp, t, r, value, conversion, text, ht, hr, hfills, hk, htext, rfl,
    Template.Body.file?_fill_eq_display_iff hk htext⟩

/-- One redirection shows a path as the container sees it, the other a number without its places. -/
theorem file?_eq_target_iff_two :
    let log : Parameter :=
      { name := "log", kind := .path, isContainerPath := true, position := some (-1),
        argument := some ⟨"> %s 2>&1", .slotted [">"] "" .text "" ["2>&1"], false⟩ }
    let count : Parameter :=
      { name := "count", kind := .scalar, position := some (-2),
        argument := some ⟨">>%d", .slotted [] ">>" .integer "" [], false⟩ }
    let schema : Schema := ⟨[log, count], by decide, by decide⟩
    let inputs : Inputs := .ofList [("log", .text "/data/run.log"), ("count", .float (.ofInt 20))]
    let rules : List MountRule := [⟨"/data", "/mnt"⟩]
    ∃ command, schema.compile {} (fun _ => true) inputs rules = .ok command ∧
      (∃ used, schema.Uses inputs rules used ∧
        ∀ token ∈ command.tokens, token.isRedirect = true →
          ∃ p ∈ schema.params, ∃ t r value conversion text,
            p.argument = some t ∧ command.resolved.get? p.name = some r ∧
            p.Fills used r.value value ∧ t.body.conversion? = some conversion ∧
            Argument.convert conversion value = .ok text ∧
            token = ⟨p.name, t.body.fill text, .redirect value.display⟩ ∧
            (t.body.file? token.words = token.target? ↔
              if conversion = .text then t.body.margins = ("", "")
              else t.body.margins.1 ++ text ++ t.body.margins.2 = value.display)) ∧
        ∀ target, command.invocation.redirect = some target →
          ∃ front token back, command.tokens = front ++ token :: back ∧
            token.target? = some target ∧ ∀ other ∈ back, other.isRedirect = false := by
  intro log count schema inputs rules
  obtain ⟨command, h⟩ : ∃ command,
      schema.compile {} (fun _ => true) inputs rules = .ok command :=
    exists_eq_ok_of_isOk (by decide +kernel)
  exact ⟨command, h, file?_eq_target_iff h⟩

/-- A template with text around its placeholder shows one file and has another opened. -/
theorem file?_ne_target_of_margin :
    let template : Argument :=
      ⟨"> logs/%s.txt", .slotted [">"] "logs/" .text ".txt" [], false⟩
    let log : Parameter := { name := "log", kind := .path, argument := some template }
    let schema : Schema := ⟨[log], by decide, by decide⟩
    let inputs : Inputs := .ofList [("log", .text "run")]
    Argument.parse "> logs/%s.txt" = .ok template ∧
      ∃ command token, schema.compile {} (fun _ => true) inputs [] = .ok command ∧
        command.tokens = [token] ∧ command.cmdline = "singularity run > logs/run.txt" ∧
        template.body.file? token.words = some "logs/run.txt" ∧ token.target? = some "run" ∧
        command.invocation.redirect = some "run" := by
  intro template log schema inputs
  refine ⟨by decide +kernel,
    ⟨["singularity", "run"], [⟨"log", [">", "logs/run.txt"], .redirect "run"⟩],
      .ofList [("log", { value := .text "run", origin := .explicit })]⟩,
    ⟨"log", [">", "logs/run.txt"], .redirect "run"⟩, ?_⟩
  decide +kernel

/-! ### Redirections are no arguments -/

/-- **Which words are passed to the program.** A redirection template makes tokens that redirect
exactly if its parameter is no switch, and the arguments are the words of all parameters that do not
redirect. -/
theorem isRedirect_iff_of_compile
    (h : schema.compile launcher isOnHost inputs rules = .ok command) :
    (∀ p ∈ schema.params, ∀ t, p.argument = some t → t.isRedirect = true →
      ∀ token ∈ command.tokensOf p.name, token.isRedirect = true ↔ p.kind.isSwitch = false) ∧
    command.argv = command.launch ++
      (command.tokens.filter fun token =>
        !(schema.get? token.param).any Parameter.redirects).flatMap Token.words := by
  obtain ⟨used, piece, hc⟩ := compile_eq_ok_iff.mp h
  constructor
  · intro p hp t ht htemplate token hmem
    rw [hc.tokensOf_eq hp] at hmem
    rw [Parameter.isRedirect_eq_redirects (hc.pieces p hp) hmem, Parameter.redirects, ht,
      Option.any_some, htemplate, Bool.and_true, Bool.not_eq_true']
  · have hkept : command.tokens.filter (!·.isRedirect) = command.tokens.filter fun token =>
        !(schema.get? token.param).any Parameter.redirects := by
      refine List.filter_congr fun token hmem => ?_
      obtain ⟨p, hp, hmem⟩ := hc.exists_mem_piece hmem
      rw [Parameter.param_of_mem_tokens (hc.pieces p hp) hmem, get?_name hp, Option.any_some,
        Parameter.isRedirect_eq_redirects (hc.pieces p hp) hmem]
    rw [Command.argv, hkept]

/-- The log is redirected and the switch is not, though both templates start with the sign. -/
theorem isRedirect_iff_of_compile_both :
    let log : Parameter :=
      { name := "log", kind := .path, position := some (-1),
        argument := some ⟨"> %s 2>&1", .slotted [">"] "" .text "" ["2>&1"], false⟩ }
    let quiet : Parameter :=
      { name := "quiet", kind := .flag,
        argument := some ⟨"> /dev/null", .literal [">", "/dev/null"], false⟩ }
    let schema : Schema := ⟨[log, quiet], by decide, by decide⟩
    let inputs : Inputs := .ofList [("log", .text "run.log"), ("quiet", .bool true)]
    ∃ command, schema.compile {} (fun _ => true) inputs [] = .ok command ∧
      (∀ p ∈ schema.params, ∀ t, p.argument = some t → t.isRedirect = true →
        ∀ token ∈ command.tokensOf p.name, token.isRedirect = true ↔ p.kind.isSwitch = false) ∧
      command.argv = command.launch ++
        (command.tokens.filter fun token =>
          !(schema.get? token.param).any Parameter.redirects).flatMap Token.words := by
  intro log quiet schema inputs
  obtain ⟨command, h⟩ : ∃ command,
      schema.compile {} (fun _ => true) inputs [] = .ok command :=
    exists_eq_ok_of_isOk (by decide +kernel)
  exact ⟨command, h, isRedirect_iff_of_compile h⟩

/-- A switch passes the words of a redirection to the program. -/
theorem argv_of_redirecting_switch :
    let template : Argument := ⟨"> /dev/null", .literal [">", "/dev/null"], false⟩
    let quiet : Parameter := { name := "quiet", kind := .flag, argument := some template }
    let schema : Schema := ⟨[quiet], by decide, by decide⟩
    let inputs : Inputs := .ofList [("quiet", .bool true)]
    Argument.parse "> /dev/null" = .ok template ∧ template.isRedirect = true ∧
      ∃ command, schema.compile {} (fun _ => true) inputs [] = .ok command ∧
        (∃ token ∈ command.tokensOf "quiet", token.isRedirect = false) ∧
        command.argv = ["singularity", "run", ">", "/dev/null"] := by
  intro template quiet schema inputs
  refine ⟨by decide +kernel, by decide +kernel,
    ⟨["singularity", "run"], [⟨"quiet", [">", "/dev/null"], .argument⟩],
      .ofList [("quiet", { value := .bool true, origin := .explicit })]⟩, ?_⟩
  decide +kernel

end Schema

end ContainerCommand
