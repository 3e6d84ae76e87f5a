import ContainerCommand.Text.Blank
import Mathlib.Data.List.DropRight

/-! What trimming and cutting into words do.

`Runs` says which words a text has, without saying how they are found: gaps of blanks stand around
them, and each goes on to the next blank. Cutting finds those words and no others (`words_eq_iff`), and
trimming takes away the outer gaps and nothing else (`trim_eq_iff`). Words that are put together with
single spaces are the words of the text that they make (`runs_join`), and what has no blank in it ends
a text exactly if it ends the text's last word (`Runs.suffix_iff`). -/
namespace ContainerCommand.Text

variable {cs text gap word rest : List Char} {ws : List (List Char)}

/-- The text holds nothing but blanks. -/
def IsGap (cs : List Char) : Prop :=
  ∀ c ∈ cs, isBlank c = true

/-- The text is not empty and holds no blank. -/
structure IsWord (cs : List Char) : Prop where
  ne_nil : cs ≠ []
  solid : ∀ c ∈ cs, isBlank c = false

/-- A word ends where the text begins. -/
def EndsWord (cs : List Char) : Prop :=
  ∀ c, cs.head? = some c → isBlank c = true

/-- The words of a text are its longest runs of characters that are not blank, in order. -/
inductive Runs : List Char → List (List Char) → Prop
  | nil {gap : List Char} (hgap : IsGap gap) : Runs gap []
  | cons {gap word rest : List Char} {ws : List (List Char)} (hgap : IsGap gap) (hword : IsWord word)
      (hrest : EndsWord rest) (h : Runs rest ws) : Runs (gap ++ word ++ rest) (word :: ws)

theorem IsGap.endsWord (h : IsGap cs) : EndsWord cs :=
  fun c hc => h c (List.mem_of_mem_head? hc)

theorem IsGap.cons {c : Char} (hc : isBlank c = true) (h : IsGap cs) : IsGap (c :: cs) :=
  List.forall_mem_cons.mpr ⟨hc, h⟩

theorem isGap_nil : IsGap [] :=
  List.forall_mem_nil _

/-! ### Cutting -/

theorem words_gap_append (hgap : IsGap gap) (cs : List Char) : words (gap ++ cs) = words cs := by
  induction gap with
  | nil => rfl
  | cons c gap ih =>
    obtain ⟨hc, hgap⟩ := List.forall_mem_cons.mp hgap
    rw [List.cons_append, words, if_pos hc, ih hgap]

theorem words_word_append (hword : IsWord word) (hrest : EndsWord rest) :
    words (word ++ rest) = word :: words rest := by
  obtain ⟨hne, hsolid⟩ := hword
  induction word with
  | nil => exact absurd rfl hne
  | cons c word ih =>
    obtain ⟨hc, hsolid⟩ := List.forall_mem_cons.mp hsolid
    rw [List.cons_append, words, if_neg (by simp [hc])]
    cases word with
    | nil =>
      cases rest with
      | nil => rfl
      | cons d rest =>
        rw [List.nil_append, List.head?_cons, Option.any_some, hrest d rfl]
        cases words (d :: rest) <;> rfl
    | cons d word =>
      rw [ih (by simp) hsolid, List.cons_append, List.head?_cons, Option.any_some,
        hsolid d (List.mem_cons_self ..)]
      rfl

theorem words_of_isGap (h : IsGap cs) : words cs = [] := by
  rw [← List.append_nil cs, words_gap_append h]
  rfl

theorem words_of_runs (h : Runs cs ws) : words cs = ws := by
  induction h with
  | nil hgap => exact words_of_isGap hgap
  | cons hgap hword hrest _ ih =>
    rw [List.append_assoc, words_gap_append hgap, words_word_append hword hrest, ih]

theorem Runs.cons_blank {c : Char} (hc : isBlank c = true) (h : Runs cs ws) :
    Runs (c :: cs) ws := by
  cases h with
  | nil hgap => exact .nil (hgap.cons hc)
  | cons hgap hword hrest h => exact .cons (hgap.cons hc) hword hrest h

/-- A character that is not blank goes in front of the first word if it touches it. -/
theorem Runs.pushFirst {c : Char} (hc : isBlank c = false) (h : Runs cs ws) :
    Runs (c :: cs) (pushFirst c (cs.head?.any isBlank) ws) := by
  have hsingle : IsWord [c] := ⟨by simp, by simpa using hc⟩
  cases h with
  | nil hgap => exact .cons isGap_nil hsingle hgap.endsWord (.nil hgap)
  | @cons gap word rest ws hgap hword hrest h =>
    cases gap with
    | nil =>
      obtain ⟨d, word, rfl⟩ := List.exists_cons_of_ne_nil hword.ne_nil
      have hd : isBlank d = false := hword.solid d (List.mem_cons_self ..)
      have hpush : Text.pushFirst c ((([] ++ d :: word ++ rest).head?).any isBlank) ((d :: word) :: ws) =
          (c :: d :: word) :: ws := by
        simp [Text.pushFirst, hd]
      rw [hpush]
      exact .cons isGap_nil ⟨by simp, List.forall_mem_cons.mpr ⟨hc, hword.solid⟩⟩ hrest h
    | cons g gap =>
      have hg : isBlank g = true := hgap g (List.mem_cons_self ..)
      have hpush : Text.pushFirst c (((g :: gap ++ word ++ rest).head?).any isBlank) (word :: ws) =
          [c] :: word :: ws := by
        simp [Text.pushFirst, hg]
      rw [hpush]
      refine .cons isGap_nil hsingle ?_ (.cons hgap hword hrest h)
      rintro _ ⟨⟩
      exact hg

theorem runs_words (cs : List Char) : Runs cs (words cs) := by
  induction cs with
  | nil => exact .nil isGap_nil
  | cons c rest ih =>
    by_cases hc : isBlank c = true
    · rw [words, if_pos hc]
      exact ih.cons_blank hc
    · rw [words, if_neg hc]
      exact ih.pushFirst (by simpa using hc)

/-- **Cutting a text finds its words**, and a text has no others. -/
theorem words_eq_iff : words cs = ws ↔ Runs cs ws :=
  ⟨fun h => h ▸ runs_words cs, words_of_runs⟩

theorem Runs.isWord (h : Runs cs ws) : ∀ word ∈ ws, IsWord word := by
  induction h with
  | nil => exact List.forall_mem_nil _
  | cons _ hword _ _ ih => exact List.forall_mem_cons.mpr ⟨hword, ih⟩

/-- A text has a word exactly if not all of it is blank. -/
theorem Runs.ne_nil_iff (h : Runs cs ws) : ws ≠ [] ↔ ∃ c ∈ cs, isBlank c = false := by
  cases h with
  | nil hgap =>
    refine iff_of_false (by simp) ?_
    rintro ⟨c, hc, hsolid⟩
    cases (hgap c hc).symm.trans hsolid
  | cons _ hword _ _ =>
    obtain ⟨c, word, rfl⟩ := List.exists_cons_of_ne_nil hword.ne_nil
    simpa using ⟨c, by simp, hword.solid c (List.mem_cons_self ..)⟩

/-! ### Trimming -/

/-- A text is what is left of another one without the blanks at either end. -/
structure Trims (cs text : List Char) : Prop where
  split : ∃ front back, cs = front ++ text ++ back ∧ IsGap front ∧ IsGap back
  first : ∀ c, text.head? = some c → isBlank c = false
  last : ∀ c, text.getLast? = some c → isBlank c = false

theorem trimEnd_eq_rdropWhile (cs : List Char) : trimEnd cs = cs.rdropWhile isBlank :=
  rfl

theorem trimEnd_append_gap (hgap : IsGap gap) (cs : List Char) :
    trimEnd (cs ++ gap) = trimEnd cs := by
  rw [trimEnd, List.reverse_append, List.dropWhile_append_of_pos]
  · rfl
  · exact fun c hc => hgap c (List.mem_reverse.mp hc)

theorem trims_trim (cs : List Char) : Trims cs (trim cs) := by
  constructor
  · refine ⟨cs.takeWhile isBlank, (cs.dropWhile isBlank).rtakeWhile isBlank, ?_, ?_, ?_⟩
    · rw [trim, trimEnd_eq_rdropWhile, List.append_assoc, List.rdropWhile_append_rtakeWhile,
        List.takeWhile_append_dropWhile]
    · exact fun c hc => List.all_eq_true.mp List.all_takeWhile c hc
    · exact fun c hc => List.mem_rtakeWhile_imp hc
  · intro c hc
    obtain ⟨others, hothers⟩ := List.head?_eq_some_iff.mp hc
    obtain ⟨back, hback⟩ := List.rdropWhile_prefix isBlank (cs.dropWhile isBlank)
    have hhead := List.head?_dropWhile_not isBlank cs
    rw [← hback, ← trimEnd_eq_rdropWhile, ← trim, hothers] at hhead
    simpa using hhead
  · intro c hc
    have hne : trim cs ≠ [] := by
      rintro hnil
      rw [hnil] at hc
      cases hc
    rw [List.getLast?_eq_some_getLast hne, Option.some.injEq] at hc
    rw [← hc, ← Bool.not_eq_true]
    exact List.rdropWhile_last_not isBlank (cs.dropWhile isBlank) hne

theorem Trims.trim_eq (h : Trims cs text) : trim cs = text := by
  obtain ⟨⟨front, back, rfl, hfront, hback⟩, hfirst, hlast⟩ := h
  rw [trim, List.append_assoc, List.dropWhile_append_of_pos hfront]
  cases text with
  | nil =>
    rw [List.nil_append, ← List.append_nil back, List.dropWhile_append_of_pos hback]
    rfl
  | cons c text =>
    rw [List.cons_append, List.dropWhile_cons_of_neg (by simp [hfirst c rfl]), ← List.cons_append,
      trimEnd_append_gap hback]
    exact List.rdropWhile_eq_self_iff.mpr fun hne => by
      simp [hlast _ (List.getLast?_eq_some_getLast hne)]

/-- A text that has no blank at either end is trimmed already. -/
theorem trims_self (hfirst : ∀ c, cs.head? = some c → isBlank c = false)
    (hlast : ∀ c, cs.getLast? = some c → isBlank c = false) : Trims cs cs :=
  ⟨⟨[], [], by simp, isGap_nil, isGap_nil⟩, hfirst, hlast⟩

/-- **Trimming takes away the gaps at either end**, and nothing else. -/
theorem trim_eq_iff : trim cs = text ↔ Trims cs text :=
  ⟨fun h => h ▸ trims_trim cs, Trims.trim_eq⟩

/-! ### Words with single spaces between them -/

/-- Words put together with single spaces. -/
def join (ws : List (List Char)) : List Char :=
  [' '].intercalate ws

theorem join_singleton (word : List Char) : join [word] = word :=
  List.intercalate_singleton

theorem join_cons_cons (word next : List Char) (ws : List (List Char)) :
    join (word :: next :: ws) = word ++ ' ' :: join (next :: ws) := by
  rw [join, List.intercalate_cons_cons, List.append_assoc]
  rfl

theorem runs_join (hws : ∀ word ∈ ws, IsWord word) : Runs (join ws) ws := by
  induction ws with
  | nil => exact .nil isGap_nil
  | cons word ws ih =>
    obtain ⟨hword, hws⟩ := List.forall_mem_cons.mp hws
    cases ws with
    | nil =>
      have h : Runs ([] ++ word ++ []) [word] := .cons isGap_nil hword isGap_nil.endsWord (.nil isGap_nil)
      rw [join_singleton]
      rwa [List.append_nil, List.nil_append] at h
    | cons next ws =>
      rw [join_cons_cons]
      refine .cons isGap_nil hword ?_ ((ih hws).cons_blank (by decide))
      rintro _ ⟨⟩
      decide

theorem exists_head?_join (hws : ∀ word ∈ ws, IsWord word) (hne : ws ≠ []) :
    ∃ c, (join ws).head? = some c ∧ isBlank c = false := by
  obtain ⟨word, others, rfl⟩ := List.exists_cons_of_ne_nil hne
  have hword := hws word (List.mem_cons_self ..)
  obtain ⟨c, rest, rfl⟩ := List.exists_cons_of_ne_nil hword.ne_nil
  refine ⟨c, ?_, hword.solid c (List.mem_cons_self ..)⟩
  cases others with
  | nil => rw [join_singleton, List.head?_cons]
  | cons next others => rw [join_cons_cons, List.cons_append, List.head?_cons]

theorem getLast?_join (hws : ∀ word ∈ ws, IsWord word) {c : Char}
    (hc : (join ws).getLast? = some c) : isBlank c = false := by
  induction ws with
  | nil => cases hc
  | cons word ws ih =>
    obtain ⟨hword, hws⟩ := List.forall_mem_cons.mp hws
    cases ws with
    | nil =>
      rw [join_singleton] at hc
      exact hword.solid c (List.mem_of_getLast? hc)
    | cons next ws =>
      have hne : join (next :: ws) ≠ [] := by
        obtain ⟨d, hd, _⟩ := exists_head?_join hws (List.cons_ne_nil next ws)
        intro hnil
        rw [hnil] at hd
        cases hd
      rw [join_cons_cons, List.getLast?_append_of_ne_nil _ (by simp),
        ← List.singleton_append, List.getLast?_append_of_ne_nil _ hne] at hc
      exact ih hws hc

/-! ### The end of a text -/

/-- A text that does not end with a blank ends with its last word, and that stands alone or behind a
blank. -/
theorem Runs.exists_front (h : Runs cs ws) (hne : ws ≠ [])
    (hlast : ∀ c, cs.getLast? = some c → isBlank c = false) :
    ∃ front, cs = front ++ ws.getLast hne ∧ ∀ c, front.getLast? = some c → isBlank c = true := by
  induction h with
  | nil => exact absurd rfl hne
  | @cons gap word rest ws hgap hword hrest h ih =>
    by_cases hnil : rest = []
    · subst hnil
      obtain rfl : words [] = ws := words_of_runs h
      exact ⟨gap, by rw [List.append_nil]; rfl, fun c hc => hgap c (List.mem_of_getLast? hc)⟩
    · rw [List.getLast?_append_of_ne_nil _ hnil] at hlast
      have hlastMem := List.getLast_mem hnil
      have hmore : ws ≠ [] := h.ne_nil_iff.mpr
        ⟨_, hlastMem, hlast _ (List.getLast?_eq_some_getLast hnil)⟩
      obtain ⟨front, hfront, hblank⟩ := ih hmore hlast
      refine ⟨gap ++ word ++ front, ?_, fun c hc => ?_⟩
      · rw [List.getLast_cons hmore, List.append_assoc _ front, ← hfront]
      · -- The rest begins with a blank, so that the last word is not all of it.
        have hne' : front ≠ [] := by
          rintro rfl
          obtain ⟨d, last, hd⟩ :=
            List.exists_cons_of_ne_nil (h.isWord _ (List.getLast_mem hmore)).ne_nil
          have hsolid := (h.isWord _ (List.getLast_mem hmore)).solid d (by rw [hd]; simp)
          rw [hrest d (by rw [hfront, hd]; rfl)] at hsolid
          cases hsolid
        rw [List.getLast?_append_of_ne_nil _ hne'] at hc
        exact hblank c hc

/-- **What has no blank in it ends a text exactly if it ends the text's last word.** -/
theorem Runs.suffix_iff (h : Runs cs ws) (hne : ws ≠ [])
    (hlast : ∀ c, cs.getLast? = some c → isBlank c = false) (hword : IsWord word) :
    word <:+ cs ↔ word <:+ ws.getLast hne := by
  obtain ⟨front, hcs, hfront⟩ := h.exists_front hne hlast
  refine ⟨fun hsuffix => ?_, fun hsuffix => hsuffix.trans ⟨front, hcs.symm⟩⟩
  rcases List.suffix_or_suffix_of_suffix hsuffix ⟨front, hcs.symm⟩ with hwithin | ⟨part, hpart⟩
  · exact hwithin
  · -- Longer than the last word it would have the blank in it that stands in front of that.
    obtain ⟨before, hbefore⟩ := hsuffix
    rw [← hpart, ← List.append_assoc, hcs, List.append_cancel_right_eq] at hbefore
    by_cases hnil : part = []
    · rw [← hpart, hnil]
      exact List.suffix_rfl
    · have hend : front.getLast? = some (part.getLast hnil) := by
        rw [← hbefore, List.getLast?_append_of_ne_nil _ hnil, List.getLast?_eq_some_getLast hnil]
      have hsolid := hword.solid (part.getLast hnil)
        (hpart ▸ List.mem_append_left _ (List.getLast_mem hnil))
      rw [hfront _ hend] at hsolid
      cases hsolid

end ContainerCommand.Text
