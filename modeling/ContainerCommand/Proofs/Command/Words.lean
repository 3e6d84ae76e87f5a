import ContainerCommand.Proofs.Command.Provenance
import ContainerCommand.Proofs.Schema.Written

/-! The words of a command, as they are shown and as they are run.

A command is shown as a text that is put together twice, words to tokens and tokens to a line, and run
as a list of words. Both come from one list, the words of the command with a mark at those that belong
to a redirection (`Command.markedWords`): the arguments are the words without the mark
(`Command.argv_eq_filter`), and the line is all words with single spaces between them, if every token
has a word (`Command.cmdline_eq_intercalate`). A token has as many words as its template, and a
template that a text writes has one (`Parameter.words_ne_nil_of_mem_tokens`). The main statement is
`Schema.cmdline_of_compile`. -/
namespace ContainerCommand

/-! ### Lines -/

/-- Putting words together group by group makes the same line as putting all of them together, if no
group is empty. -/
theorem intercalate_flatten (sep : String) {groups : List (List String)}
    (h : ∀ group ∈ groups, group ≠ []) :
    sep.intercalate (groups.map sep.intercalate) = sep.intercalate groups.flatten := by
  induction groups with
  | nil => rfl
  | cons group rest ih =>
    obtain ⟨hgroup, hrest⟩ := List.forall_mem_cons.mp h
    rw [List.map_cons, List.flatten_cons]
    by_cases hnil : rest = []
    · subst hnil
      rw [List.map_nil, String.intercalate_singleton, List.flatten_nil, List.append_nil]
    · have hmore : rest.flatten ≠ [] := by
        obtain ⟨next, others, rfl⟩ := List.exists_cons_of_ne_nil hnil
        rw [List.flatten_cons]
        exact List.append_ne_nil_of_left_ne_nil (hrest next (List.mem_cons_self ..)) _
      rw [String.intercalate_cons_of_ne_nil (by simpa using hnil), ih hrest,
        String.intercalate_append_of_ne_nil hgroup hmore]

namespace Command

variable {command : Command}

/-- The words of the command in order, each with whether it belongs to a redirection. -/
def markedWords (command : Command) : List (String × Bool) :=
  command.launch.map (fun word => (word, false)) ++
    command.tokens.flatMap fun token => token.words.map fun word => (word, token.isRedirect)

theorem map_fst_markedWords (command : Command) :
    command.markedWords.map Prod.fst = command.launch ++ command.tokens.flatMap Token.words := by
  simp [markedWords, List.map_flatMap, Function.comp_def]

/-- The arguments are the words that belong to no redirection. -/
theorem argv_eq_filter (command : Command) :
    command.argv = (command.markedWords.filter (!·.2)).map Prod.fst := by
  have htokens : ∀ tokens : List Token, (tokens.filter (!·.isRedirect)).flatMap Token.words =
      ((tokens.flatMap fun token => token.words.map fun word =>
        (word, token.isRedirect)).filter (!·.2)).map Prod.fst := by
    intro tokens
    induction tokens with
    | nil => rfl
    | cons token rest ih =>
      rw [List.flatMap_cons, List.filter_append, List.map_append, ← ih]
      cases hredirect : token.isRedirect <;>
        simp [hredirect, List.filter_map, Function.comp_def]
  rw [argv, htokens, markedWords, List.filter_append, List.map_append]
  simp [List.filter_map, Function.comp_def]

/-- The line is the words with single spaces between them, if no token is without words. -/
theorem cmdline_eq_intercalate (h : ∀ token ∈ command.tokens, token.words ≠ []) :
    command.cmdline = " ".intercalate (command.markedWords.map Prod.fst) := by
  let groups := command.launch.map (fun word => [word]) ++ command.tokens.map Token.words
  have hgroups : ∀ group ∈ groups, group ≠ [] := by
    intro group hgroup
    rcases List.mem_append.mp hgroup with hmem | hmem
    · obtain ⟨word, _, rfl⟩ := List.mem_map.mp hmem
      exact List.cons_ne_nil word []
    · obtain ⟨token, htoken, rfl⟩ := List.mem_map.mp hmem
      exact h token htoken
  have hrendered : groups.map " ".intercalate = command.renderedTokens := by
    simp [groups, renderedTokens, Token.render, Function.comp_def]
  have hwords : groups.flatten = command.markedWords.map Prod.fst := by
    rw [map_fst_markedWords, List.flatten_append, ← List.flatMap_def, ← List.flatMap_def]
    simp
  rw [cmdline, ← hrendered, intercalate_flatten " " hgroups, hwords]

/-- A token without words would leave a gap. -/
example : cmdline ⟨["run"], [⟨"mode", [], .argument⟩, ⟨"out", ["-o"], .argument⟩], ∅⟩ = "run  -o" := by
  decide +kernel

/-- The arguments of a command without redirections are all its words. -/
theorem argv_of_isRedirect_eq_false (h : ∀ token ∈ command.tokens, token.isRedirect = false) :
    command.argv = command.markedWords.map Prod.fst := by
  rw [map_fst_markedWords, argv, List.filter_eq_self.mpr]
  intro token htoken
  rw [h token htoken]
  rfl

end Command

/-! ### Tokens have words -/

namespace Parameter

/-- Every token has a word if the template of its parameter is written. -/
theorem words_ne_nil_of_mem_tokens {p : Parameter} {rules : List MountRule}
    {resolution : Resolution} {tokens : List Token} (hwritten : p.IsWritten)
    (h : p.tokens rules resolution = .ok tokens) {token : Token} (hmem : token ∈ tokens) :
    token.words ≠ [] := by
  obtain ⟨r, t, _, ht, hshows⟩ := showsIn_of_mem_tokens h hmem
  have hwords : t.words ≠ [] := (hwritten t ht).words_ne_nil
  rcases hshows.of_mem hmem with ⟨_, rfl⟩ | ⟨_, v, _, htoken⟩
  · exact hwords
  · have hlength := Template.Argument.length_fill (token_eq_ok_iff.mp htoken).1
    rw [← List.length_pos_iff] at hwords ⊢
    rwa [hlength]

end Parameter

namespace Schema

variable {schema : Schema} {launcher : Launcher} {isOnHost : String → Bool} {inputs : Inputs}
  {rules : List MountRule} {command : Command}

/-- **What is shown is what is run.** If the templates of a schema are written, the line of a command is
its words with single spaces between them, and its arguments are the same words less those of the
redirections. So a command without redirections is shown as its arguments, and taking a redirection out
of a command leaves the arguments alone. -/
theorem cmdline_of_compile (hwritten : schema.IsWritten)
    (h : schema.compile launcher isOnHost inputs rules = .ok command) :
    command.markedWords.map Prod.fst = command.launch ++ command.tokens.flatMap Token.words ∧
      command.cmdline = " ".intercalate (command.markedWords.map Prod.fst) ∧
      command.argv = (command.markedWords.filter (!·.2)).map Prod.fst ∧
      ((∀ token ∈ command.tokens, token.isRedirect = false) →
        command.cmdline = " ".intercalate command.argv) ∧
      ∀ front token back, command.tokens = front ++ token :: back → token.isRedirect = true →
        Command.argv { command with tokens := front ++ back } = command.argv := by
  obtain ⟨used, piece, hc⟩ := compile_eq_ok_iff.mp h
  have hwords : ∀ token ∈ command.tokens, token.words ≠ [] := by
    intro token htoken
    obtain ⟨p, hp, hmem⟩ := hc.exists_mem_piece htoken
    exact Parameter.words_ne_nil_of_mem_tokens (hwritten p hp) (hc.pieces p hp) hmem
  have hline := Command.cmdline_eq_intercalate hwords
  refine ⟨command.map_fst_markedWords, hline, command.argv_eq_filter, fun hplain => ?_,
    fun front token back htokens hredirect => ?_⟩
  · rw [hline, Command.argv_of_isRedirect_eq_false hplain]
  · rw [Command.argv, Command.argv, htokens]
    simp [hredirect]

/-- Mounts, an image and a command are shown and run; the log is shown and not run. -/
theorem cmdline_of_compile_log :
    let inputs : Inputs := .ofList
      [("container", .text "a.sif"), (commandName, .text "fit"), ("log_file", .text "a.log")]
    let rules : List MountRule := [⟨"/data", "/mnt"⟩, ⟨"/home", "/root"⟩]
    baseSchema.IsWritten ∧
      ∃ command, baseSchema.compile {} (fun _ => true) inputs rules = .ok command ∧
        command.markedWords.map Prod.fst = command.launch ++ command.tokens.flatMap Token.words ∧
        command.cmdline = " ".intercalate (command.markedWords.map Prod.fst) ∧
        command.argv = (command.markedWords.filter (!·.2)).map Prod.fst ∧
        ((∀ token ∈ command.tokens, token.isRedirect = false) →
          command.cmdline = " ".intercalate command.argv) ∧
        ∀ front token back, command.tokens = front ++ token :: back → token.isRedirect = true →
          Command.argv { command with tokens := front ++ back } = command.argv := by
  intro inputs rules
  have hwritten : baseSchema.IsWritten := isWritten_builtin.base
  obtain ⟨command, h⟩ : ∃ command,
      baseSchema.compile {} (fun _ => true) inputs rules = .ok command :=
    exists_eq_ok_of_isOk (by decide +kernel)
  exact ⟨hwritten, command, h, cmdline_of_compile hwritten h⟩

end Schema

end ContainerCommand
