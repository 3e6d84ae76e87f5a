import ContainerCommand.Proofs.Path.Stem

/-! Paths with another extension.

The name at the end of a path is replaced where it stands (`withExtension_eq`), so that the path with
another extension names an entry of the same directory (`components_withExtension`). An extension with a
dot inside of it makes a name that is not the old one, whatever extension that has
(`stemOfName_append_ne`). -/
namespace ContainerCommand.Path

variable {path front part text name extension : List Char}

/-! ### The text of a path -/

theorem ofSegments_cons {parts : List (List Char)} (hne : parts ≠ []) (part : List Char) :
    ofSegments (part :: parts) = part ++ '/' :: ofSegments parts := by
  cases parts with
  | nil => exact absurd rfl hne
  | cons next others => rfl

theorem ofSegments_segments (text : List Char) : ofSegments (segments text) = text := by
  induction text with
  | nil => rfl
  | cons c rest ih =>
    by_cases hc : c = '/'
    · rw [segments, if_pos hc, ofSegments_cons (segments_ne_nil rest), ih, hc]
      rfl
    · obtain ⟨segment, others, hrest, hcons⟩ := segments_cons_of_ne hc rest
      rw [hrest] at ih
      rw [hcons, ← ih]
      cases others <;> rfl

theorem ofSegments_concat {parts : List (List Char)} (hne : parts ≠ []) (part : List Char) :
    ofSegments (parts ++ [part]) = ofSegments parts ++ '/' :: part := by
  induction parts with
  | nil => exact absurd rfl hne
  | cons first others ih =>
    cases others with
    | nil => rfl
    | cons next more =>
      calc ofSegments (first :: next :: more ++ [part])
        _ = first ++ '/' :: ofSegments (next :: more ++ [part]) :=
          ofSegments_cons (List.cons_ne_nil _ _) first
        _ = first ++ '/' :: (ofSegments (next :: more) ++ '/' :: part) := by
          rw [ih (List.cons_ne_nil _ _)]
        _ = ofSegments (first :: next :: more) ++ '/' :: part := by
          rw [ofSegments_cons (List.cons_ne_nil _ _), List.append_assoc, List.cons_append]

theorem splitLead_append (path : List Char) : (splitLead path).1 ++ (splitLead path).2 = path := by
  rcases splitLead_cases path with ⟨rest, rfl⟩ | rfl | ⟨rest, rfl⟩ | hlead
  · rfl
  · rfl
  · rfl
  · rw [hlead, List.nil_append]

/-- A text that begins with a component is read as it is behind any other text. -/
theorem components_append (hfront : ∀ c, front.getLast? = some c → c = '/')
    (htext : ∀ part, (segments text).head? = some part → isIdle part = false) :
    components (front ++ text) = components front ++ inner text := by
  cases hlast : front.getLast? with
  | none =>
    rw [List.getLast?_eq_none_iff.mp hlast, List.nil_append, components_eq, splitLead_of_head htext]
    rfl
  | some c =>
    obtain rfl := hfront c hlast
    obtain ⟨start, rfl⟩ := List.getLast?_eq_some_iff.mp hlast
    rw [List.append_assoc, List.singleton_append]
    by_cases hstart : start = []
    · subst hstart
      rfl
    · rw [components_append_slash hstart, components_append_slash hstart, inner_nil, List.append_nil]

theorem dropIdleEnd_append {parts idle : List (List Char)} (hpart : isIdle part = false)
    (hidle : ∀ segment ∈ idle, isIdle segment = true) :
    dropIdleEnd (parts ++ part :: idle) = parts ++ [part] := by
  rw [dropIdleEnd, List.reverse_append, List.reverse_cons, List.append_assoc,
    List.dropWhile_append_of_pos fun segment h => hidle segment (List.mem_reverse.mp h),
    List.singleton_append, List.dropWhile_cons_of_neg (by rw [hpart]; exact Bool.false_ne_true),
    List.reverse_cons, List.reverse_reverse]

/-! ### The name at the end -/

theorem fileName?_eq_some_iff :
    fileName? path = some name ↔ (components path).getLast? = some (.normal name) := by
  unfold fileName?
  split
  · rename_i last hlast
    rw [hlast, Option.some.injEq, Option.some.injEq, Component.normal.injEq]
  · rename_i hlast
    exact iff_of_false nofun (hlast name)

theorem withExtension_of_segments (before : List (List Char)) {idle : List (List Char)}
    (hname : fileName? path = some name) (hcounts : isIdle name = false)
    (hidle : ∀ segment ∈ idle, isIdle segment = true)
    (hsegments : segments (splitLead path).2 = before ++ name :: idle) :
    withExtension path extension =
      (splitLead path).1 ++ ofSegments (before ++ [stemOfName name ++ '.' :: extension]) := by
  simp only [withExtension, hname, hsegments, dropIdleEnd_append hcounts hidle, List.dropLast_concat]

/-- **Only the name changes**: what stands in front of it stays, and what stands behind it goes. -/
theorem withExtension_eq (hname : fileName? path = some name) (extension : List Char) :
    ∃ front, withExtension path extension = front ++ (stemOfName name ++ '.' :: extension) ∧
      components path = components front ++ [.normal name] ∧
      ∀ c, front.getLast? = some c → c = '/' := by
  obtain ⟨⟨⟨front, back, hpath, hfront, hback, hbare⟩, hcounts, hsolid⟩, hdots⟩ :=
    getLast?_components_eq_normal_iff.mp (fileName?_eq_some_iff.mp hname)
  obtain ⟨idle, hsegments, hidle⟩ := segments_append_bare hsolid hback hbare
  have htext : ∀ part, (segments (name ++ back)).head? = some part → isIdle part = false := by
    intro part hpart
    rw [hsegments] at hpart
    exact Option.some.inj hpart ▸ hcounts
  rw [List.append_assoc] at hpath
  refine ⟨front, ?_, ?_, hfront⟩
  · -- The lead of the path is that of the front, or the front is all of it.
    cases hend : front.getLast? with
    | none =>
      rw [List.getLast?_eq_none_iff.mp hend, List.nil_append] at hpath ⊢
      have hlead : splitLead path = ([], path) := hpath ▸ splitLead_of_head htext
      rw [withExtension_of_segments [] hname hcounts hidle
        (by rw [hlead, hpath, hsegments]; rfl), hlead]
      rfl
    | some c =>
      obtain rfl := hfront c hend
      obtain ⟨start, rfl⟩ := List.getLast?_eq_some_iff.mp hend
      rw [List.append_assoc, List.singleton_append] at hpath ⊢
      by_cases hstart : start = []
      · subst hstart
        have hlead : splitLead path = (['/'], name ++ back) := hpath ▸ rfl
        rw [withExtension_of_segments [] hname hcounts hidle
          (by rw [hlead, hsegments]; rfl), hlead]
        rfl
      · have hlead := hpath ▸ splitLead_append_slash hstart (name ++ back)
        rw [withExtension_of_segments _ hname hcounts hidle
            (by rw [hlead, segments_append_slash, hsegments]),
          hlead, ofSegments_concat (segments_ne_nil _), ofSegments_segments, ← List.append_assoc,
          splitLead_append]
  · have hnone : idle.filter (!isIdle ·) = [] :=
      List.filter_eq_nil_iff.mpr fun segment h => by simp [hidle segment h]
    rw [hpath, components_append hfront htext, inner, hsegments,
      List.filter_cons_of_pos (by rw [hcounts]; rfl), hnone, List.map_singleton, component,
      if_neg hdots]

/-- **The path names another entry of the same directory.** -/
theorem components_withExtension (hname : fileName? path = some name) (hne : extension ≠ [])
    (hsolid : '/' ∉ extension) :
    components (withExtension path extension) =
      (components path).dropLast ++ [.normal (stemOfName name ++ '.' :: extension)] := by
  have hpart := (getLast?_components_eq_normal_iff.mp (fileName?_eq_some_iff.mp hname)).1
  have hstem : stemOfName name ≠ [] := stemOfName_ne_nil fun hnil => by
    have hcounts := hpart.counts
    rw [hnil] at hcounts
    cases hcounts
  have hlength : 3 ≤ (stemOfName name ++ '.' :: extension).length := by
    have := List.length_pos_iff.mpr hstem
    have := List.length_pos_iff.mpr hne
    rw [List.length_append, List.length_cons]
    omega
  have hfree : '/' ∉ stemOfName name ++ '.' :: extension := by
    simp only [List.mem_append, List.mem_cons, not_or]
    exact ⟨fun h => hpart.solid ((prefix_stemOfName name).subset h), by decide, hsolid⟩
  obtain ⟨front, htext, hpath, hfront⟩ := withExtension_eq hname extension
  generalize stemOfName name ++ '.' :: extension = other at htext hlength hfree ⊢
  have hcounts : isIdle other = false := by
    rw [isIdle, Bool.or_eq_false_iff, List.isEmpty_eq_false_iff, beq_eq_false_iff_ne]
    constructor <;> rintro rfl <;> simp at hlength
  have hdots : other ≠ ['.', '.'] := by
    rintro rfl
    simp at hlength
  rw [htext, hpath, List.dropLast_concat, components_append hfront, inner, segments_of_not_mem hfree,
    List.filter_cons_of_pos (by rw [hcounts]; rfl), List.filter_nil, List.map_singleton, component,
    if_neg hdots]
  rw [segments_of_not_mem hfree]
  exact fun part hpart => Option.some.inj hpart ▸ hcounts

/-- **An extension with a dot in it makes another name**, be the name's own extension the same or part of
it, or none at all. -/
theorem stemOfName_append_ne (hdot : '.' ∈ extension) (name : List Char) :
    stemOfName name ++ '.' :: extension ≠ name := by
  intro heq
  obtain ⟨first, last, rfl, hlast⟩ := exists_last_split hdot
  -- The name's last dot is the one inside of the extension, so its stem would be longer than it is.
  have hstem : stemOfName name = stemOfName name ++ '.' :: first := by
    conv_lhs => rw [← heq, ← List.cons_append, ← List.append_assoc]
    exact stemOfName_append (by simp) hlast
  have hlength := congrArg List.length hstem
  rw [List.length_append, List.length_cons] at hlength
  omega

end ContainerCommand.Path
