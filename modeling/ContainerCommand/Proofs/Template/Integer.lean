import ContainerCommand.Proofs.Number.Integer
import ContainerCommand.Template.Argument

/-! A text in the place of an integer.

`HoldsInteger` is what a text has to be for a placeholder that asks for an integer: one in decimal
notation, within a signed word, with blanks around it or not. What is shown is the canonical text of
the integer, so that a text is shown like the integer it holds, and what is shown can be filled in
again (`fill_integer_text`). -/
namespace ContainerCommand.Template
open Number Text

/-- The text is an integer of a signed word in decimal notation, with blanks around it or not. -/
def HoldsInteger (s : String) (n : Int) : Prop :=
  ∃ body, Trims s.toList body ∧ Denotes body n ∧ -(2 ^ 63) ≤ n ∧ n ≤ 2 ^ 63 - 1

variable {s : String} {n : Int}

theorem holdsInteger_iff : HoldsInteger s n ↔ readInteger? (trim s.toList) = some n := by
  rw [readInteger?_eq_some_iff]
  constructor
  · rintro ⟨body, hbody, h⟩
    rwa [hbody.trim_eq]
  · intro h
    exact ⟨trim s.toList, trims_trim _, h⟩

/-- The text of an integer holds it. -/
theorem HoldsInteger.intText (h : HoldsInteger s n) : HoldsInteger (Value.intText n) n := by
  obtain ⟨_, _, _, hrange⟩ := h
  have hdenotes := (canonical_intText n).denotes
  exact ⟨_, trim_eq_iff.mp hdenotes.trim_eq, hdenotes, hrange⟩

namespace Argument

theorem convert_integer_text_of_holds (h : HoldsInteger s n) :
    convert .integer (.text s) = .ok (Value.intText n) := by
  rw [convert, holdsInteger_iff.mp h]

theorem convert_integer_text_of_not (h : ∀ n, ¬ HoldsInteger s n) :
    convert .integer (.text s) = .error (.notInteger s) := by
  have hread : readInteger? (trim s.toList) = none :=
    Option.eq_none_iff_forall_ne_some.mpr fun n hn => h n (holdsInteger_iff.mpr hn)
  rw [convert, hread]

variable {t : Argument}

theorem fill_of_convert_eq_ok {conversion : Conversion} {name text : String} {value : Value}
    (h : t.body.conversion? = some conversion) (hconvert : convert conversion value = .ok text) :
    t.fill name value = .ok (t.body.fill text) := by
  simp only [fill, h, hconvert]

theorem fill_of_convert_eq_error {conversion : Conversion} {name : String} {value : Value}
    {fault : ValueFault} (h : t.body.conversion? = some conversion)
    (hconvert : convert conversion value = .error fault) :
    t.fill name value = .error (.invalidValue name fault) := by
  simp only [fill, h, hconvert]

/-- **A text stands for the integer it holds.** Where a template asks for an integer, a text can be
filled in exactly if without the blanks around it it is digits behind at most one sign, and if their
integer fits a signed word. It is shown in its canonical notation, as the integer itself and as the
shown text would be. Every other text is refused in the parameter's name. -/
theorem fill_integer_text (h : t.body.conversion? = some .integer) (name s : String) :
    ((∃ words, t.fill name (.text s) = .ok words) ↔ ∃ n, HoldsInteger s n) ∧
      (∀ n, HoldsInteger s n → ∃ text, Canonical text.toList n ∧
        t.fill name (.text s) = .ok (t.body.fill text) ∧
        t.fill name (.int n) = .ok (t.body.fill text) ∧
        t.fill name (.text text) = .ok (t.body.fill text)) ∧
      ((∀ n, ¬ HoldsInteger s n) →
        t.fill name (.text s) = .error (.invalidValue name (.notInteger s))) := by
  have hholds : ∀ {s n}, HoldsInteger s n →
      t.fill name (.text s) = .ok (t.body.fill (Value.intText n)) := fun hn =>
    fill_of_convert_eq_ok h (convert_integer_text_of_holds hn)
  have hrefused : (∀ n, ¬ HoldsInteger s n) →
      t.fill name (.text s) = .error (.invalidValue name (.notInteger s)) := fun hn =>
    fill_of_convert_eq_error h (convert_integer_text_of_not hn)
  refine ⟨⟨fun ⟨words, hwords⟩ => ?_, fun ⟨n, hn⟩ => ⟨_, hholds hn⟩⟩, fun n hn => ?_, hrefused⟩
  · by_contra hnone
    rw [hrefused (not_exists.mp hnone)] at hwords
    cases hwords
  · exact ⟨Value.intText n, canonical_intText n, hholds hn, fill_of_convert_eq_ok h rfl,
      hholds hn.intText⟩

/-- The least integer of a signed word behind zeros and a blank, and one more than the greatest. -/
theorem fill_integer_text_bounds :
    let t : Argument := ⟨"-l=%d", .slotted [] "-l=" .integer "" [], false⟩
    parse "-l=%d" = .ok t ∧
      t.fill "length" (.text " -009223372036854775808") = .ok ["-l=-9223372036854775808"] ∧
      t.fill "length" (.int (-9223372036854775808)) = .ok ["-l=-9223372036854775808"] ∧
      (∀ n, ¬ HoldsInteger "9223372036854775808" n) ∧
      t.fill "length" (.text "9223372036854775808") =
        .error (.invalidValue "length" (.notInteger "9223372036854775808")) := by
  intro t
  have h : t.body.conversion? = some .integer := rfl
  have hleast : HoldsInteger " -009223372036854775808" (-9223372036854775808) :=
    holdsInteger_iff.mpr (by decide +kernel)
  have hbeyond : ∀ n, ¬ HoldsInteger "9223372036854775808" n := fun n hn => by
    have hread : readInteger? (trim "9223372036854775808".toList) = none := by decide +kernel
    cases hread.symm.trans (holdsInteger_iff.mp hn)
  obtain ⟨text, hcanonical, hfilled, hint, -⟩ :=
    (fill_integer_text h "length" " -009223372036854775808").2.1 _ hleast
  have htext : text = "-9223372036854775808" :=
    String.toList_inj.mp (hcanonical.eq_intText.trans (by decide +kernel))
  rw [htext] at hfilled hint
  exact ⟨by decide +kernel, hfilled, hint, hbeyond,
    (fill_integer_text h "length" "9223372036854775808").2.2 hbeyond⟩

/-- Both signs may stand in front of zero, and neither is shown. -/
example : (["+0", "-0", " 000\n"].map fun s => convert .integer (.text s)) =
    List.replicate 3 (.ok "0") := by
  decide +kernel

end Argument

end ContainerCommand.Template
