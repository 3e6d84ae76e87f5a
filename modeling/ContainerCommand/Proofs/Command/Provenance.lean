import ContainerCommand.Proofs.Command.Compilation

/-! Which parameter a token of a command comes from.

Parameters have different names, so a token's name says which of them it shows: every token is shown
by a parameter of the schema (`exists_mem_piece`), the tokens of some names are what the parameters of
these names show (`filter_tokens`), those of a parameter's name all that the parameter shows
(`tokensOf_eq`), and other names have none (`tokensOf_eq_nil`). -/
namespace ContainerCommand

namespace Schema

/-- Of the parameters in order, one has the name of a parameter. -/
theorem filter_ordered_name {schema : Schema} {p : Parameter} (hp : p ∈ schema.params) :
    schema.ordered.filter (·.name == p.name) = [p] := by
  have hnodup : schema.ordered.Nodup := ordered_perm.nodup_iff.mpr nodup_params
  rw [← List.perm_singleton,
    List.perm_ext_iff_of_nodup (hnodup.filter _) (List.nodup_singleton p)]
  intro q
  rw [List.mem_filter, ordered_perm.mem_iff, beq_iff_eq, List.mem_singleton]
  exact ⟨fun h => eq_of_name_eq h.1 hp h.2, fun h => ⟨h ▸ hp, h ▸ rfl⟩⟩

namespace Compiles

variable {schema : Schema} {launcher : Launcher} {isOnHost : String → Bool} {inputs : Inputs}
  {rules used : List MountRule} {piece : Parameter → List Token} {command : Command}

/-- Every token of a command is shown by a parameter. -/
theorem exists_mem_piece (hc : schema.Compiles launcher isOnHost inputs rules used piece command)
    {token : Token} (hmem : token ∈ command.tokens) : ∃ p ∈ schema.params, token ∈ piece p := by
  rw [hc.tokens] at hmem
  obtain ⟨p, hp, hmem⟩ := List.mem_flatMap.mp hmem
  exact ⟨p, ordered_perm.mem_iff.mp hp, hmem⟩

/-- The tokens of the names that a test keeps are what the parameters of these names show. -/
theorem filter_tokens (hc : schema.Compiles launcher isOnHost inputs rules used piece command)
    (keep : String → Bool) :
    command.tokens.filter (keep ·.param) =
      (schema.ordered.filter (keep ·.name)).flatMap piece := by
  have hpiece : ∀ p ∈ schema.ordered, (piece p).filter (keep ·.param) =
      if keep p.name then piece p else [] := by
    intro p hp
    have htokens := hc.pieces p (ordered_perm.mem_iff.mp hp)
    split
    · rename_i hkeep
      refine List.filter_eq_self.mpr fun token hmem => ?_
      rw [Parameter.param_of_mem_tokens htokens hmem, hkeep]
    · rename_i hkeep
      refine List.filter_eq_nil_iff.mpr fun token hmem => ?_
      rwa [Parameter.param_of_mem_tokens htokens hmem]
  rw [hc.tokens, List.filter_flatMap, List.flatMap_congr hpiece]
  refine (flatMap_filter_eq fun p _ hkeep => ?_).symm.trans (List.flatMap_congr fun p hp => ?_)
  · rw [hkeep, if_neg Bool.false_ne_true]
  · rw [if_pos (List.mem_filter.mp hp).2]

/-- The tokens of a parameter's name are what the parameter shows. -/
theorem tokensOf_eq (hc : schema.Compiles launcher isOnHost inputs rules used piece command)
    {p : Parameter} (hp : p ∈ schema.params) : command.tokensOf p.name = piece p := by
  rw [Command.tokensOf, hc.filter_tokens (· == p.name), filter_ordered_name hp,
    List.flatMap_singleton]

/-- A name that is not declared has no tokens. -/
theorem tokensOf_eq_nil (hc : schema.Compiles launcher isOnHost inputs rules used piece command)
    {name : String} (hname : schema.contains name = false) : command.tokensOf name = [] := by
  rw [Command.tokensOf, List.filter_eq_nil_iff]
  intro token hmem
  obtain ⟨p, hp, hmem⟩ := hc.exists_mem_piece hmem
  rw [Parameter.param_of_mem_tokens (hc.pieces p hp) hmem, beq_iff_eq]
  rintro rfl
  rw [contains_iff.mpr ⟨p, hp, rfl⟩] at hname
  cases hname

end Compiles

end Schema

end ContainerCommand
