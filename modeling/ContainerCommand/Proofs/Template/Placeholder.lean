import ContainerCommand.Proofs.Text.Words
import ContainerCommand.Template.Argument

/-! The placeholders of a text and of its words.

`occurrences` looks at every place of a text, and counts as many placeholders there as are found by
reading on behind each (`length_occurrences`): no two of them overlap. A placeholder has no blank in
it, so those of a text are those of its words (`placeholders_eq_flatMap`), and a template is cut open
at the first one of them (`conversion?_ofWords`). -/
namespace ContainerCommand.Template

variable {cs : List Char} {ws : List (List Char)}

/-! ### Places -/

/-- A percent sign stands at the place, and one of the three letters behind it. -/
def IsPlaceholderAt (cs : List Char) (i : Nat) : Prop :=
  cs[i]? = some '%' ∧ (cs[i + 1]? = some 's' ∨ cs[i + 1]? = some 'd' ∨ cs[i + 1]? = some 'f')

instance (cs : List Char) (i : Nat) : Decidable (IsPlaceholderAt cs i) :=
  inferInstanceAs (Decidable (_ ∧ _))

/-- The places of a text at which a placeholder stands. -/
def occurrences (cs : List Char) : List Nat :=
  (List.range cs.length).filter (IsPlaceholderAt cs ·)

theorem occurrences_cons (c : Char) (cs : List Char) :
    occurrences (c :: cs) =
      (if IsPlaceholderAt (c :: cs) 0 then [0] else []) ++ (occurrences cs).map (· + 1) := by
  rw [occurrences, List.length_cons, List.range_succ_eq_map, List.filter_cons, List.filter_map]
  split <;> rename_i h <;> simp only [decide_eq_true_eq] at h
  · rw [if_pos h]
    rfl
  · rw [if_neg h]
    rfl

theorem isSome_ofLetter?_iff {c : Char} :
    (Conversion.ofLetter? c).isSome = true ↔ c = 's' ∨ c = 'd' ∨ c = 'f' := by
  unfold Conversion.ofLetter?
  split_ifs <;> simp_all

theorem isPlaceholderAt_zero_iff {c d : Char} :
    IsPlaceholderAt (c :: d :: cs) 0 ↔
      (if c = '%' then Conversion.ofLetter? d else none).isSome = true := by
  by_cases hc : c = '%'
  · simp [IsPlaceholderAt, hc, isSome_ofLetter?_iff]
  · simp [IsPlaceholderAt, hc]

/-- Reading on behind each placeholder misses none. -/
theorem length_occurrences (cs : List Char) :
    (occurrences cs).length = (placeholders cs).length := by
  fun_induction placeholders cs with
  | case1 => rfl
  | case2 c => simp [IsPlaceholderAt, occurrences]
  | case3 c d rest k hk ih =>
    have hfirst : IsPlaceholderAt (c :: d :: rest) 0 := isPlaceholderAt_zero_iff.mpr (by rw [hk]; rfl)
    -- The letter of a placeholder is not the percent sign of another one.
    have hsecond : ¬ IsPlaceholderAt (d :: rest) 0 := by
      rintro ⟨hd, _⟩
      obtain rfl : d = '%' := by simpa using hd
      split at hk <;> cases hk
    rw [occurrences_cons, if_pos hfirst, occurrences_cons, if_neg hsecond]
    simp [ih]
  | case4 c d rest hk ih =>
    have hfirst : ¬ IsPlaceholderAt (c :: d :: rest) 0 := by
      rw [isPlaceholderAt_zero_iff, hk]
      simp
    rw [occurrences_cons, if_neg hfirst]
    simpa using ih

theorem occurrences_eq_nil_iff : occurrences cs = [] ↔ placeholders cs = [] := by
  rw [← List.length_eq_zero_iff, length_occurrences, List.length_eq_zero_iff]

/-! ### Words -/

theorem placeholders_cons_of_ne {c : Char} (hc : c ≠ '%') (cs : List Char) :
    placeholders (c :: cs) = placeholders cs := by
  cases cs with
  | nil => rfl
  | cons d rest => rw [placeholders, if_neg hc]

theorem ofLetter?_of_isBlank {c : Char} (hc : Text.isBlank c = true) :
    Conversion.ofLetter? c = none := by
  rw [← Option.not_isSome_iff_eq_none, isSome_ofLetter?_iff]
  rintro (rfl | rfl | rfl) <;> revert hc <;> decide

theorem placeholders_gap_append {gap : List Char} (hgap : Text.IsGap gap) (cs : List Char) :
    placeholders (gap ++ cs) = placeholders cs := by
  induction gap with
  | nil => rfl
  | cons c gap ih =>
    obtain ⟨hc, hgap⟩ := List.forall_mem_cons.mp hgap
    rw [List.cons_append, placeholders_cons_of_ne _ _, ih hgap]
    rintro rfl
    revert hc
    decide

/-- A text that begins with a blank does not complete a placeholder in front of it. -/
theorem placeholders_append {rest : List Char} (hrest : Text.EndsWord rest) (cs : List Char) :
    placeholders (cs ++ rest) = placeholders cs ++ placeholders rest := by
  fun_induction placeholders cs with
  | case1 => rfl
  | case2 c =>
    cases rest with
    | nil => rfl
    | cons d rest =>
      rw [List.singleton_append, placeholders, ofLetter?_of_isBlank (hrest d rfl), ite_self]
      rfl
  | case3 c d front k hk ih =>
    rw [List.cons_append, List.cons_append, placeholders, hk]
    simp only [ih, List.cons_append]
  | case4 c d front hk ih =>
    rw [List.cons_append, List.cons_append, placeholders, hk]
    exact ih

theorem placeholders_eq_flatMap (h : Text.Runs cs ws) :
    placeholders cs = ws.flatMap placeholders := by
  induction h with
  | @nil gap hgap =>
    rw [← List.append_nil gap, placeholders_gap_append hgap]
    rfl
  | cons hgap _ hrest _ ih =>
    rw [placeholders_append hrest, placeholders_gap_append hgap, List.flatMap_cons, ih]

/-! ### Templates that are cut open -/

theorem placeholders_of_split? {pre post : List Char} {k : Conversion}
    (h : split? cs = some (pre, k, post)) : placeholders cs = k :: placeholders post := by
  fun_induction split? cs generalizing pre k post with
  | case1 => cases h
  | case2 => cases h
  | case3 c d rest k' hk =>
    cases h
    rw [placeholders, hk]
  | case4 c d rest hk ih =>
    obtain ⟨⟨pre', k', post'⟩, hs, heq⟩ := Option.map_eq_some_iff.mp h
    cases heq
    rw [placeholders, hk]
    exact ih hs

namespace Body

theorem conversion?_ofWords (ws : List (List Char)) :
    (ofWords ws).conversion? = (ws.flatMap placeholders).head? := by
  fun_induction ofWords ws with
  | case1 => rfl
  | case2 word rest pre k post hcut =>
    have hhead := head?_placeholders word
    rw [hcut] at hhead
    simp [conversion?, List.head?_append, hhead]
  | case3 word rest hcut words hrest ih =>
    rw [List.flatMap_cons, (split?_eq_none_iff word).mp hcut, List.nil_append, ← ih, hrest]
    rfl
  | case4 word rest hcut front pre k post back hrest ih =>
    rw [List.flatMap_cons, (split?_eq_none_iff word).mp hcut, List.nil_append, ← ih, hrest]
    rfl

/-- Cutting words open keeps them as they were written. -/
theorem words_ofWords (ws : List (List Char)) : (ofWords ws).words = ws.map String.ofList := by
  fun_induction ofWords ws with
  | case1 => rfl
  | case2 word rest pre k post hcut =>
    rw [List.map_cons, eq_of_split? hcut, String.ofList_append, String.ofList_append]
    rfl
  | case3 word rest hcut words hrest ih =>
    rw [hrest] at ih
    rw [List.map_cons, ← ih]
    rfl
  | case4 word rest hcut front pre k post back hrest ih =>
    rw [hrest] at ih
    rw [List.map_cons, ← ih]
    rfl

end Body

end ContainerCommand.Template
