import ContainerCommand.Proofs.Template.Placeholder
import ContainerCommand.Resolution.Basic

/-! Templates for names, as they are written.

A text is accepted by looking for placeholders of any kind, and filled by looking for `%s` alone. Both
find the same place (`replaceFirst_of_split?`), since the one placeholder of the text is the only
place at which the text can be cut (`eq_of_cut`). So a template puts each stem between two texts
that do not depend on it, whatever the stem holds. The main statement is `parse_once`. -/
namespace ContainerCommand.Template

variable {cs pre post : List Char} {k : Conversion} {i : Nat}

/-! ### The place of the one placeholder -/

theorem Conversion.ofLetter?_letter (k : Conversion) : ofLetter? k.letter = some k := by
  cases k <;> rfl

theorem Conversion.letter_injective : Function.Injective letter := by
  intro k k' h
  rw [← Option.some.injEq, ← ofLetter?_letter k, h, ofLetter?_letter]

theorem mem_occurrences_iff : i ∈ occurrences cs ↔ IsPlaceholderAt cs i := by
  rw [occurrences, List.mem_filter, List.mem_range, decide_eq_true_eq, and_iff_right_iff_imp]
  exact fun h => (List.getElem?_eq_some_iff.mp h.1).1

/-- The letter of a placeholder that a text is cut at. -/
theorem getElem?_cut (pre : List Char) (k : Conversion) (post : List Char) :
    (pre ++ k.placeholder ++ post)[pre.length + 1]? = some k.letter := by
  rw [List.append_assoc, List.getElem?_append_right (Nat.le_add_right _ 1), Nat.add_sub_cancel_left]
  rfl

theorem isPlaceholderAt_cut (pre : List Char) (k : Conversion) (post : List Char) :
    IsPlaceholderAt (pre ++ k.placeholder ++ post) pre.length := by
  refine ⟨?_, ?_⟩
  · rw [List.append_assoc, List.getElem?_append_right (Nat.le_refl _), Nat.sub_self]
    rfl
  · rw [getElem?_cut]
    cases k <;> simp [Conversion.letter]

/-- A text with one placeholder is cut where that stands. -/
theorem length_of_cut (h : occurrences (pre ++ k.placeholder ++ post) = [i]) : pre.length = i :=
  List.mem_singleton.mp (h ▸ mem_occurrences_iff.mpr (isPlaceholderAt_cut pre k post))

/-- A text with one placeholder is cut in one way. -/
theorem eq_of_cut {pre' post' : List Char}
    (hone : occurrences (pre ++ k.placeholder ++ post) = [i])
    (hcut : pre ++ k.placeholder ++ post = pre' ++ k.placeholder ++ post') :
    pre = pre' ∧ post = post' := by
  have hlength : pre.length = pre'.length :=
    (length_of_cut hone).trans (length_of_cut (hcut ▸ hone)).symm
  rw [List.append_assoc, List.append_assoc] at hcut
  obtain ⟨hpre, hrest⟩ := List.append_inj hcut hlength
  exact ⟨hpre, List.append_cancel_left hrest⟩

theorem exists_cut (h : placeholders cs = [k]) :
    ∃ pre post, split? cs = some (pre, k, post) ∧ occurrences cs = [pre.length] := by
  obtain ⟨i, hi⟩ := List.length_eq_one_iff.mp ((length_occurrences cs).trans (by rw [h]; rfl))
  have hhead := head?_placeholders cs
  rw [h, List.head?_cons, eq_comm, Option.map_eq_some_iff] at hhead
  obtain ⟨⟨pre, k', post⟩, hcut, rfl⟩ := hhead
  rw [eq_of_split? hcut] at hi
  rw [eq_of_split? hcut, hi, ← length_of_cut hi]
  exact ⟨pre, post, by rw [← eq_of_split? hcut, hcut], rfl⟩

/-- Reading on behind each placeholder finds one only, and of which kind, exactly if one place of the
text has a placeholder, with the letter of that kind. -/
theorem placeholders_eq_singleton_iff :
    placeholders cs = [k] ↔ ∃ i, occurrences cs = [i] ∧ cs[i + 1]? = some k.letter := by
  have hletter : ∀ {k' i}, placeholders cs = [k'] → occurrences cs = [i] →
      cs[i + 1]? = some k'.letter := by
    intro k' i hk' hi
    obtain ⟨pre, post, hcut, hplace⟩ := exists_cut hk'
    obtain rfl : pre.length = i := List.singleton_inj.mp (hplace.symm.trans hi)
    rw [eq_of_split? hcut]
    exact getElem?_cut pre k' post
  constructor
  · intro h
    obtain ⟨pre, post, _, hplace⟩ := exists_cut h
    exact ⟨pre.length, hplace, hletter h hplace⟩
  · rintro ⟨i, hplace, hk⟩
    obtain ⟨k', hk'⟩ := List.length_eq_one_iff.mp ((length_occurrences cs).symm.trans (by rw [hplace]; rfl))
    rw [hk', Conversion.letter_injective (Option.some.inj ((hletter hk' hplace).symm.trans hk))]

/-! ### Filling what is written -/

/-- Looking for `%s` finds the first placeholder of the text, if that is one. -/
theorem replaceFirst_of_split? (h : split? cs = some (pre, .text, post)) (new : List Char) :
    replaceFirst Conversion.text.placeholder new cs = pre ++ new ++ post := by
  fun_induction split? cs generalizing pre post with
  | case1 => cases h
  | case2 => cases h
  | case3 c d rest k hk =>
    cases h
    split at hk
    · subst c
      obtain rfl : 's' = d := Conversion.letter_of_ofLetter? hk
      rfl
    · cases hk
  | case4 c d rest hk ih =>
    obtain ⟨⟨pre', k', post'⟩, hs, heq⟩ := Option.map_eq_some_iff.mp h
    cases heq
    -- Where no placeholder of any kind stands, `%s` does not stand either.
    have hfirst : Conversion.text.placeholder.isPrefixOf (c :: d :: rest) = false := by
      rw [Bool.eq_false_iff]
      intro hprefix
      obtain ⟨_, hstart⟩ := List.isPrefixOf_iff_prefix.mp hprefix
      cases hstart
      cases hk
    rw [replaceFirst, hfirst, if_neg Bool.false_ne_true]
    simp [ih hs]

namespace Name

variable {raw : String} {t : Name}

theorem parse_eq_error (h : placeholders raw.toList ≠ [.text]) :
    parse raw = .error (.invalidTemplate raw .notOneName) := by
  unfold parse
  exact if_neg h

theorem parse_eq_ok_iff :
    parse raw = .ok t ↔ placeholders raw.toList = [.text] ∧
      split? raw.toList = some (t.pre.toList, .text, t.post.toList) := by
  by_cases h : placeholders raw.toList = [.text]
  · obtain ⟨pre, post, hcut, _⟩ := exists_cut h
    unfold parse
    rw [if_pos h, hcut, and_iff_right h, Option.some.injEq]
    constructor
    · rintro ⟨⟩
      rw [String.toList_ofList, String.toList_ofList]
    · rintro ⟨⟩
      show Except.ok (⟨String.ofList t.pre.toList, String.ofList t.post.toList⟩ : Name) = .ok t
      rw [String.ofList_toList, String.ofList_toList]
  · rw [parse_eq_error h]
    exact iff_of_false nofun fun hcut => h hcut.1

theorem exists_parse_eq_ok_iff :
    (∃ t, parse raw = .ok t) ↔ placeholders raw.toList = [.text] := by
  refine ⟨fun ⟨_, h⟩ => (parse_eq_ok_iff.mp h).1, fun h => ?_⟩
  obtain ⟨pre, post, hcut, _⟩ := exists_cut h
  refine ⟨⟨String.ofList pre, String.ofList post⟩, parse_eq_ok_iff.mpr ⟨h, ?_⟩⟩
  rw [hcut, String.toList_ofList, String.toList_ofList]

/-- A template that is kept as it was written is filled as one that is cut open is. -/
theorem applyWritten_of_parse (h : parse raw = .ok t) (stem : String) :
    applyWritten raw stem = t.apply stem := by
  rw [applyWritten, replaceFirst_of_split? (parse_eq_ok_iff.mp h).2, ← String.toList_append,
    ← String.toList_append, String.ofList_toList]
  rfl

/-- Nothing of a stem is lost in the name. -/
theorem apply_injective (t : Name) : Function.Injective t.apply := by
  intro stem other h
  rw [apply, apply, ← String.toList_inj] at h
  simp only [String.toList_append, List.append_cancel_right_eq, List.append_cancel_left_eq] at h
  exact String.toList_inj.mp h

theorem eq_written_iff {pre post : String} :
    raw = pre ++ "%s" ++ post ↔
      raw.toList = pre.toList ++ Conversion.text.placeholder ++ post.toList := by
  rw [← String.toList_inj, String.toList_append, String.toList_append]
  rfl

/-- A template that was read is written in no other way. -/
theorem eq_written_iff_of_parse (h : parse raw = .ok t) {pre post : String} :
    raw = pre ++ "%s" ++ post ↔ pre = t.pre ∧ post = t.post := by
  have hcut := (parse_eq_ok_iff.mp h).2
  obtain ⟨_, _, _, hone⟩ := exists_cut (parse_eq_ok_iff.mp h).1
  rw [eq_written_iff]
  constructor
  · intro hraw
    rw [eq_of_split? hcut] at hone hraw
    obtain ⟨hpre, hpost⟩ := eq_of_cut hone hraw
    exact ⟨(String.toList_inj.mp hpre).symm, (String.toList_inj.mp hpost).symm⟩
  · rintro ⟨rfl, rfl⟩
    exact eq_of_split? hcut

/-- Sources whose texts have different stems do not have the same name derived from them. -/
theorem pathStem_eq_of_derive {p : Parameter} {source text text' : String} {value other : Value}
    (hvalue : value.sourceText? = some text) (hother : other.sourceText? = some text')
    (h : p.derive source t value = p.derive source t other) : pathStem text = pathStem text' := by
  simp only [Parameter.derive, hvalue, hother, Except.ok.injEq, Value.text.injEq] at h
  exact t.apply_injective h

/-- **A text is a template for names exactly if it has one placeholder and that is `%s`**; any other
is refused with the text in the error. The texts on the two sides of the placeholder are then the only
ones that the template can be written with. Whether it is kept cut open or as it is written, and
whatever a stem holds, the name is the stem between these texts. So different stems make different
names, also where they are the stems of values that the names are derived from. -/
theorem parse_once (raw : String) :
    ((∃ t, parse raw = .ok t) ↔
      ∃ i, occurrences raw.toList = [i] ∧ raw.toList[i + 1]? = some 's') ∧
    (∀ e, parse raw = .error e → e = .invalidTemplate raw .notOneName) ∧
    ∀ t, parse raw = .ok t →
      (∀ pre post, raw = pre ++ "%s" ++ post ↔ pre = t.pre ∧ post = t.post) ∧
      (∀ stem, applyWritten raw stem = t.pre ++ stem ++ t.post ∧
        t.apply stem = applyWritten raw stem) ∧
      (∀ stem other, applyWritten raw stem = applyWritten raw other → stem = other) ∧
      ∀ (p : Parameter) (source text text' : String) (value other : Value),
        value.sourceText? = some text → other.sourceText? = some text' →
        p.derive source t value = p.derive source t other → pathStem text = pathStem text' := by
  refine ⟨exists_parse_eq_ok_iff.trans placeholders_eq_singleton_iff, fun e he => ?_, fun t ht =>
    ⟨fun _ _ => eq_written_iff_of_parse ht, fun stem => ?_, fun stem other h => ?_,
      fun _ _ _ _ _ _ => pathStem_eq_of_derive⟩⟩
  · have hnone : placeholders raw.toList ≠ [.text] := fun h => by
      obtain ⟨t, ht⟩ := exists_parse_eq_ok_iff.mpr h
      cases ht.symm.trans he
    cases (parse_eq_error hnone).symm.trans he
    rfl
  · exact ⟨applyWritten_of_parse ht stem, (applyWritten_of_parse ht stem).symm⟩
  · rw [applyWritten_of_parse ht, applyWritten_of_parse ht] at h
    exact t.apply_injective h

/-- A percent sign does not hide the next one, and what a stem holds is not read again. -/
example : (parse "%%s_%").toOption.map (·.apply "a%s") = some "%a%s_%" := by
  decide +kernel

end Name

end ContainerCommand.Template
