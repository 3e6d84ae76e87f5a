import ContainerCommand.Path
import Mathlib.Data.List.DropRight

/-! The components of paths that are cut and joined.

Behind its lead a path is read separator by separator (`inner`), so what stands before a separator
and what stands behind it are read apart (`components_append_slash`). From this follow the laws of the
operations on paths: cutting components off leaves the components behind them
(`components_textBehind`), the directory of a path has all of them but the last (`components_parent?`),
and joining appends components (`components_join`). All hold of texts with repeated separators and
single dots at any place. -/
namespace ContainerCommand.Path

/-- Whether a component can stand behind others. -/
def Component.isInner : Component → Bool
  | .root | .current => false
  | .parent | .normal _ => true

/-! ### Parts between separators -/

theorem segments_ne_nil (text : List Char) : segments text ≠ [] := by
  cases text with
  | nil => simp [segments]
  | cons c rest =>
    simp only [segments]
    split
    · simp
    · split <;> simp

theorem segments_cons_of_ne {c : Char} (hc : c ≠ '/') (text : List Char) :
    ∃ segment others, segments text = segment :: others ∧
      segments (c :: text) = (c :: segment) :: others := by
  obtain ⟨segment, others, h⟩ := List.exists_cons_of_ne_nil (segments_ne_nil text)
  exact ⟨segment, others, h, by simp [segments, hc, h]⟩

/-- A separator parts what stands on its two sides. -/
theorem segments_append_slash (front back : List Char) :
    segments (front ++ '/' :: back) = segments front ++ segments back := by
  induction front with
  | nil => simp [segments]
  | cons c rest ih =>
    by_cases hc : c = '/'
    · simp [segments, hc, ih]
    · obtain ⟨segment, others, h, hcons⟩ := segments_cons_of_ne hc rest
      rw [List.cons_append, hcons, segments, if_neg hc, ih, h]
      rfl

theorem segments_of_not_mem {text : List Char} (h : '/' ∉ text) : segments text = [text] := by
  induction text with
  | nil => rfl
  | cons c rest ih =>
    rw [List.mem_cons, not_or] at h
    simp [segments, ih h.2, Ne.symm h.1]

theorem not_mem_of_mem_segments {text segment : List Char} (h : segment ∈ segments text) :
    '/' ∉ segment := by
  induction text generalizing segment with
  | nil => simp_all [segments]
  | cons c rest ih =>
    by_cases hc : c = '/'
    · rw [segments, if_pos hc, List.mem_cons] at h
      rcases h with rfl | h
      · exact List.not_mem_nil
      · exact ih h
    · obtain ⟨first, others, hrest, hcons⟩ := segments_cons_of_ne hc rest
      rw [hcons, List.mem_cons] at h
      rcases h with rfl | h
      · rw [List.mem_cons, not_or]
        exact ⟨Ne.symm hc, ih (hrest ▸ List.mem_cons_self ..)⟩
      · exact ih (hrest ▸ List.mem_cons_of_mem first h)

theorem segments_ofSegments {parts : List (List Char)} (hne : parts ≠ [])
    (hparts : ∀ part ∈ parts, '/' ∉ part) : segments (ofSegments parts) = parts := by
  induction parts with
  | nil => exact absurd rfl hne
  | cons part others ih =>
    obtain ⟨hpart, hothers⟩ := List.forall_mem_cons.mp hparts
    cases others with
    | nil => exact segments_of_not_mem hpart
    | cons next rest =>
      rw [ofSegments, segments_append_slash, segments_of_not_mem hpart, ih (by simp) hothers]
      · rfl
      · simp

/-! ### Components behind a lead -/

/-- The components of a text that stands behind a lead or a separator. -/
def inner (text : List Char) : List Component :=
  ((segments text).filter (!isIdle ·)).map component

theorem components_eq (path : List Char) :
    components path = leadComponent (splitLead path).1 ++ inner (splitLead path).2 :=
  rfl

@[simp] theorem inner_nil : inner [] = [] := rfl

theorem inner_append_slash (front back : List Char) :
    inner (front ++ '/' :: back) = inner front ++ inner back := by
  rw [inner, segments_append_slash, List.filter_append, List.map_append]
  rfl

@[simp] theorem inner_slash_cons (text : List Char) : inner ('/' :: text) = inner text :=
  inner_append_slash [] text

theorem inner_ofSegments {parts : List (List Char)} (hparts : ∀ part ∈ parts, '/' ∉ part) :
    inner (ofSegments parts) = (parts.filter (!isIdle ·)).map component := by
  cases parts with
  | nil => rfl
  | cons part others => rw [inner, segments_ofSegments (by simp) hparts]

/-- A path has one of the three leads or none. -/
theorem splitLead_cases (path : List Char) :
    (∃ rest, path = '/' :: rest) ∨ path = ['.'] ∨ (∃ rest, path = '.' :: '/' :: rest) ∨
      splitLead path = ([], path) := by
  fun_cases splitLead path with
  | case1 rest => exact .inl ⟨rest, rfl⟩
  | case2 => exact .inr (.inl rfl)
  | case3 rest => exact .inr (.inr (.inl ⟨rest, rfl⟩))
  | case4 => exact .inr (.inr (.inr rfl))

/-- A text that begins with a component that its place does not make has no lead. -/
theorem splitLead_of_head {path : List Char}
    (h : ∀ part, (segments path).head? = some part → isIdle part = false) :
    splitLead path = ([], path) := by
  unfold splitLead
  split
  · cases h [] (by simp [segments])
  · cases h ['.'] rfl
  · cases h ['.'] (by simp [segments])
  · rfl

theorem splitLead_ofSegments {parts : List (List Char)} (hparts : ∀ part ∈ parts, '/' ∉ part)
    (hhead : ∀ part, parts.head? = some part → isIdle part = false) :
    splitLead (ofSegments parts) = ([], ofSegments parts) := by
  cases parts with
  | nil => rfl
  | cons part others =>
    refine splitLead_of_head fun first hfirst => hhead first ?_
    rw [← hfirst, segments_ofSegments (by simp) hparts]

/-- A text without a lead begins with a component, if with anything. -/
theorem isIdle_head_segments {path part : List Char} (hlead : splitLead path = ([], path))
    (hne : path ≠ []) (h : (segments path).head? = some part) : isIdle part = false := by
  cases path with
  | nil => exact absurd rfl hne
  | cons c rest =>
    have hroot : c ≠ '/' := by
      rintro rfl
      cases hlead
    obtain ⟨first, others, hrest, hcons⟩ := segments_cons_of_ne hroot rest
    rw [hcons, List.head?_cons, Option.some.injEq] at h
    subst h
    -- The only part with a character that is no component is a single dot.
    rw [isIdle, List.isEmpty_cons, Bool.false_or, beq_eq_false_iff_ne]
    intro hdot
    obtain ⟨rfl, rfl⟩ := List.cons.inj hdot
    cases rest with
    | nil => cases hlead
    | cons d more =>
      by_cases hd : d = '/'
      · subst hd
        cases hlead
      · obtain ⟨_, _, _, hmore⟩ := segments_cons_of_ne hd more
        rw [hmore] at hrest
        cases hrest

/-! ### Cutting -/

theorem prefix_dropIdleEnd (parts : List (List Char)) : dropIdleEnd parts <+: parts :=
  List.rdropWhile_prefix isIdle parts

theorem head?_of_dropIdleEnd {part : List Char} {parts : List (List Char)}
    (h : (dropIdleEnd parts).head? = some part) : parts.head? = some part := by
  obtain ⟨others, hothers⟩ := List.head?_eq_some_iff.mp h
  obtain ⟨back, hback⟩ := prefix_dropIdleEnd parts
  rw [← hback, hothers]
  rfl

theorem filter_dropIdleEnd (parts : List (List Char)) :
    (dropIdleEnd parts).filter (!isIdle ·) = parts.filter (!isIdle ·) := by
  show (parts.rdropWhile isIdle).filter _ = _
  induction parts using List.reverseRecOn with
  | nil => rfl
  | append_singleton front part ih =>
    rw [List.rdropWhile_concat]
    split
    · rename_i hidle
      simp [ih, hidle]
    · rfl

theorem filter_dropWhile_isIdle (parts : List (List Char)) :
    (parts.dropWhile isIdle).filter (!isIdle ·) = parts.filter (!isIdle ·) := by
  induction parts with
  | nil => rfl
  | cons part others ih =>
    rw [List.dropWhile_cons]
    split
    · rename_i hidle
      simp [ih, hidle]
    · rfl

theorem isIdle_head_dropWhile {part : List Char} {others parts : List (List Char)}
    (h : parts.dropWhile isIdle = part :: others) : isIdle part = false := by
  have hhead := List.head?_dropWhile_not isIdle parts
  rwa [h] at hhead

/-- Cutting keeps a part between separators as it is. -/
theorem suffix_dropComponents (n : Nat) (parts : List (List Char)) :
    dropComponents n parts <:+ parts := by
  induction n generalizing parts with
  | zero => exact List.dropWhile_suffix isIdle
  | succ n ih =>
    rw [dropComponents]
    split
    · exact List.nil_suffix
    · rename_i part others h
      exact (ih others).trans ((List.suffix_cons part others).trans (h ▸ List.dropWhile_suffix isIdle))

/-- What is left begins with a component, if anything is left. -/
theorem isIdle_head_dropComponents {n : Nat} {part : List Char} {parts : List (List Char)}
    (h : (dropComponents n parts).head? = some part) : isIdle part = false := by
  induction n generalizing parts with
  | zero =>
    obtain ⟨others, hothers⟩ := List.head?_eq_some_iff.mp h
    exact isIdle_head_dropWhile hothers
  | succ n ih =>
    rw [dropComponents] at h
    split at h
    · cases h
    · exact ih h

theorem filter_dropComponents (n : Nat) (parts : List (List Char)) :
    (dropComponents n parts).filter (!isIdle ·) = (parts.filter (!isIdle ·)).drop n := by
  induction n generalizing parts with
  | zero => exact filter_dropWhile_isIdle parts
  | succ n ih =>
    rw [dropComponents, ← filter_dropWhile_isIdle parts]
    split
    · rename_i h
      rw [h]
      rfl
    · rename_i part others h
      rw [h, ih, List.filter_cons_of_pos (by rw [isIdle_head_dropWhile h]; rfl), List.drop_succ_cons]

theorem dropIdleEnd_ne_singleton {part : List Char} {parts : List (List Char)}
    (h : isIdle part = true) : dropIdleEnd parts ≠ [part] := by
  intro heq
  have hlast := List.rdropWhile_last_not isIdle parts
  rw [show parts.rdropWhile isIdle = [part] from heq] at hlast
  exact hlast (by simp) h

theorem dropIdleEnd_of_isIdle {parts : List (List Char)} (h : ∀ part ∈ parts, isIdle part = true) :
    dropIdleEnd parts = [] :=
  List.rdropWhile_eq_nil_iff.mpr h

/-- The front of a path without idle parts at its end has the path's lead. -/
theorem splitLead_append_dropIdleEnd (path : List Char) {parts : List (List Char)}
    (hparts : parts <+: segments (splitLead path).2) :
    splitLead ((splitLead path).1 ++ ofSegments (dropIdleEnd parts)) =
      ((splitLead path).1, ofSegments (dropIdleEnd parts)) := by
  have hfront := (prefix_dropIdleEnd parts).trans hparts
  rcases splitLead_cases path with ⟨rest, rfl⟩ | rfl | ⟨rest, rfl⟩ | hlead
  · rfl
  · rw [dropIdleEnd_of_isIdle fun part hpart => List.mem_singleton.mp (hparts.subset hpart) ▸ rfl]
    rfl
  · rw [splitLead, segments, if_pos rfl] at hfront
    rw [splitLead]
    -- The separator behind the dot stays, unless nothing else does.
    cases hshort : dropIdleEnd parts with
    | nil => rfl
    | cons part others =>
      rw [hshort, List.cons_prefix_cons] at hfront
      obtain ⟨rfl, _⟩ := hfront
      cases others with
      | nil => exact absurd hshort (dropIdleEnd_ne_singleton rfl)
      | cons next more => rfl
  · rw [hlead] at hfront ⊢
    rw [List.nil_append]
    by_cases hne : path = []
    · subst hne
      rw [dropIdleEnd_of_isIdle fun part hpart => List.mem_singleton.mp (hparts.subset hpart) ▸ rfl]
      rfl
    · refine splitLead_ofSegments (fun part hpart => ?_) fun part hpart => ?_
      · exact not_mem_of_mem_segments (hfront.subset hpart)
      · obtain ⟨others, hothers⟩ := List.head?_eq_some_iff.mp hpart
        obtain ⟨back, hback⟩ := hfront
        exact isIdle_head_segments hlead hne (by rw [← hback, hothers]; rfl)

/-- The components of the front of a path. -/
theorem components_append_dropIdleEnd (path : List Char) {parts : List (List Char)}
    (hparts : parts <+: segments (splitLead path).2) :
    components ((splitLead path).1 ++ ofSegments (dropIdleEnd parts)) =
      leadComponent (splitLead path).1 ++ (parts.filter (!isIdle ·)).map component := by
  rw [components_eq, splitLead_append_dropIdleEnd path hparts, inner_ofSegments, filter_dropIdleEnd]
  intro part hpart
  exact not_mem_of_mem_segments (hparts.subset ((prefix_dropIdleEnd parts).subset hpart))

theorem length_leadComponent_le (lead : List Char) : (leadComponent lead).length ≤ 1 := by
  unfold leadComponent
  split
  · exact Nat.le_refl 1
  · split <;> simp

/-- What stands behind a number of components is read without a lead. -/
theorem components_dropComponents (n : Nat) {parts : List (List Char)}
    (hparts : ∀ part ∈ parts, '/' ∉ part) :
    components (ofSegments (dropIdleEnd (dropComponents n parts))) =
      ((parts.filter (!isIdle ·)).drop n).map component := by
  have hfree : ∀ part ∈ dropIdleEnd (dropComponents n parts), '/' ∉ part := fun part hpart =>
    hparts part ((suffix_dropComponents n parts).subset ((prefix_dropIdleEnd _).subset hpart))
  have hlead : splitLead (ofSegments (dropIdleEnd (dropComponents n parts))) = ([], _) :=
    splitLead_ofSegments hfree fun part hpart =>
      isIdle_head_dropComponents (head?_of_dropIdleEnd hpart)
  rw [components_eq, hlead, inner_ofSegments hfree, filter_dropIdleEnd, filter_dropComponents]
  rfl

/-- **Cutting leaves the components behind**, whatever separators and single dots stand between
them. -/
theorem components_textBehind (n : Nat) (path : List Char) :
    components (textBehind n path) = (components path).drop n := by
  have hfree : ∀ part ∈ segments (splitLead path).2, '/' ∉ part :=
    fun _ => not_mem_of_mem_segments
  by_cases hn : n = 0
  · have htext : textBehind n path =
        (splitLead path).1 ++ ofSegments (dropIdleEnd (segments (splitLead path).2)) := if_pos hn
    rw [htext, hn, List.drop_zero, components_append_dropIdleEnd path List.prefix_rfl]
    rfl
  · have htext : textBehind n path = ofSegments (dropIdleEnd (dropComponents
        (n - (leadComponent (splitLead path).1).length) (segments (splitLead path).2))) := if_neg hn
    have hlength := length_leadComponent_le (splitLead path).1
    have hnone : (leadComponent (splitLead path).1).drop n = [] :=
      List.drop_eq_nil_of_le (by omega)
    rw [htext, components_dropComponents _ hfree, components_eq path, List.drop_append, hnone,
      List.map_drop]
    rfl

/-! ### Components and leads -/

theorem isInner_of_mem_inner {text : List Char} {c : Component} (h : c ∈ inner text) :
    c.isInner = true := by
  obtain ⟨part, _, rfl⟩ := List.mem_map.mp h
  unfold component
  split <;> rfl

theorem filter_isInner_leadComponent (lead : List Char) :
    (leadComponent lead).filter Component.isInner = [] := by
  unfold leadComponent
  split
  · rfl
  · split <;> rfl

theorem component_ne_current (part : List Char) : component part ≠ .current := by
  unfold component
  split <;> nofun

theorem isInner_eq_false_of_mem_leadComponent {lead : List Char} {c : Component}
    (h : c ∈ leadComponent lead) : c.isInner = false := by
  by_contra hinner
  have hmem := List.mem_filter.mpr ⟨h, eq_true_of_ne_false hinner⟩
  rw [filter_isInner_leadComponent] at hmem
  cases hmem

/-- **The directory of a path has all of its components but the last.** -/
theorem components_parent? {path parent : List Char} (h : parent? path = some parent) :
    components parent = (components path).dropLast := by
  have hpath : components path =
      leadComponent (splitLead path).1 ++
        ((dropIdleEnd (segments (splitLead path).2)).filter (!isIdle ·)).map component := by
    rw [filter_dropIdleEnd]
    rfl
  have hprefix := prefix_dropIdleEnd (segments (splitLead path).2)
  have hcounts := List.rdropWhile_last_not isIdle (segments (splitLead path).2)
  change ∀ hne, ¬ isIdle ((dropIdleEnd (segments (splitLead path).2)).getLast hne) = true at hcounts
  rw [parent?] at h
  dsimp only at h
  generalize dropIdleEnd (segments (splitLead path).2) = parts at h hpath hprefix hcounts
  rcases List.eq_nil_or_concat' parts with rfl | ⟨before, part, rfl⟩
  · -- Only the lead is there, and it is a dot.
    rw [List.filter_nil, List.map_nil, List.append_nil] at hpath
    split at h
    · cases h
    · cases h
    · cases h
      have hlength := length_leadComponent_le (splitLead path).1
      exact (List.eq_nil_of_length_eq_zero (by rw [List.length_dropLast, hpath]; omega)).symm
    · rename_i last hroot hdot hlast
      rw [hpath] at hlast
      have hinner := isInner_eq_false_of_mem_leadComponent (List.mem_of_getLast? hlast)
      cases last <;> simp_all [Component.isInner]
  · have hidle : isIdle part = false := by simpa using hcounts
    have hfront := components_append_dropIdleEnd path ((List.prefix_append before [part]).trans hprefix)
    replace hpath : components path = components
        ((splitLead path).1 ++ ofSegments (dropIdleEnd before)) ++ [component part] := by
      rw [hpath, hfront, List.filter_append, List.map_append, ← List.append_assoc,
        List.filter_singleton, hidle]
      rfl
    rw [List.dropLast_concat] at h
    rw [hpath, List.dropLast_concat]
    split at h
    · cases h
    · cases h
    · rename_i hlast
      rw [hpath, List.getLast?_concat] at hlast
      exact absurd (Option.some.inj hlast) (component_ne_current part)
    · cases h
      rfl

theorem inner_splitLead (path : List Char) : inner (splitLead path).2 = inner path := by
  rcases splitLead_cases path with ⟨rest, rfl⟩ | rfl | ⟨rest, rfl⟩ | hlead
  · exact (inner_slash_cons rest).symm
  · rfl
  · exact (inner_slash_cons rest).trans (inner_append_slash ['.'] rest).symm
  · rw [hlead]

/-- Only the lead of a path is not read as the text behind a separator is. -/
theorem filter_isInner_components (path : List Char) :
    (components path).filter Component.isInner = inner path := by
  rw [components_eq, List.filter_append, filter_isInner_leadComponent, List.nil_append,
    List.filter_eq_self.mpr fun c => isInner_of_mem_inner, inner_splitLead]

theorem isInner_of_mem_drop {n : Nat} (hn : n ≠ 0) {path : List Char} {c : Component}
    (h : c ∈ (components path).drop n) : c.isInner = true := by
  have hlength := length_leadComponent_le (splitLead path).1
  rw [components_eq, List.drop_append, List.drop_eq_nil_of_le (by omega), List.nil_append] at h
  exact isInner_of_mem_inner (List.mem_of_mem_drop h)

theorem head?_components_eq_root_iff {path : List Char} :
    (components path).head? = some .root ↔ path.head? = some '/' := by
  rcases splitLead_cases path with ⟨rest, rfl⟩ | rfl | ⟨rest, rfl⟩ | hlead
  · exact iff_of_true rfl rfl
  · exact iff_of_false (by decide) (by decide)
  · exact iff_of_false (fun h => by cases h) (fun h => by simp at h)
  · refine iff_of_false (fun h => ?_) fun h => ?_
    · rw [components_eq, hlead] at h
      cases isInner_of_mem_inner (List.mem_of_mem_head? h)
    · obtain ⟨rest, rfl⟩ := List.head?_eq_some_iff.mp h
      cases hlead

theorem components_eq_nil_iff {path : List Char} : components path = [] ↔ path = [] := by
  refine ⟨fun h => ?_, fun h => h ▸ rfl⟩
  rcases splitLead_cases path with ⟨rest, rfl⟩ | rfl | ⟨rest, rfl⟩ | hlead
  · cases h
  · cases h
  · cases h
  · by_contra hne
    obtain ⟨part, others, hparts⟩ := List.exists_cons_of_ne_nil (segments_ne_nil path)
    have hidle := isIdle_head_segments hlead hne (by rw [hparts]; rfl)
    rw [components_eq, hlead, inner, hparts, List.filter_cons_of_pos (by rw [hidle]; rfl)] at h
    cases h

/-! ### Joining -/

theorem splitLead_append_slash {front : List Char} (hne : front ≠ []) (back : List Char) :
    splitLead (front ++ '/' :: back) =
      ((splitLead front).1, (splitLead front).2 ++ '/' :: back) := by
  rcases splitLead_cases front with ⟨rest, rfl⟩ | rfl | ⟨rest, rfl⟩ | hlead
  · rfl
  · rfl
  · rfl
  · obtain ⟨part, others, hparts⟩ := List.exists_cons_of_ne_nil (segments_ne_nil front)
    rw [hlead]
    refine splitLead_of_head fun first hfirst => isIdle_head_segments hlead hne ?_
    rw [segments_append_slash, hparts] at hfirst
    rw [hparts, ← hfirst]
    rfl

/-- What stands before a separator and what stands behind it are read apart. -/
theorem components_append_slash {front : List Char} (hne : front ≠ []) (back : List Char) :
    components (front ++ '/' :: back) = components front ++ inner back := by
  rw [components_eq, splitLead_append_slash hne, inner_append_slash, components_eq front,
    List.append_assoc]

/-- **Joining appends components.** A path that starts at the root stands for itself, and so does
one that is joined to nothing; a single dot at its front is dropped. -/
theorem components_join (front back : List Char) :
    components (join front back) =
      if (components back).head? = some .root ∨ front = [] then components back
      else components front ++ (components back).filter Component.isInner := by
  unfold join
  by_cases hroot : back.head? = some '/'
  · rw [if_pos hroot, if_pos (.inl (head?_components_eq_root_iff.mpr hroot))]
  rw [if_neg hroot]
  by_cases hne : front = []
  · subst hne
    simp
  rw [if_neg (not_or.mpr ⟨fun h => hroot (head?_components_eq_root_iff.mp h), hne⟩),
    filter_isInner_components]
  by_cases hend : front.getLast? = some '/'
  · obtain ⟨start, rfl⟩ := List.getLast?_eq_some_iff.mp hend
    rw [if_pos (by simp), List.append_assoc, List.singleton_append]
    by_cases hstart : start = []
    · subst hstart
      rfl
    · rw [components_append_slash hstart, components_append_slash hstart, inner_nil,
        List.append_nil]
  · rw [if_neg (by simp [hne, hend]), components_append_slash hne]

end ContainerCommand.Path
