import ContainerCommand.Proofs.Text.Words
import ContainerCommand.Value
import Mathlib.Algebra.Ring.Int.Defs

/-! Integers as texts.

`Denotes` is the notation that is read: decimal digits, as many as there are, behind at most one sign.
Reading finds the integer of such a text if a signed word holds it, and nothing else is read
(`readInteger?_eq_some_iff`). `Canonical` is the notation that is written: of the texts that denote an
integer the one without a plus sign and without zeros in front (`canonical_intText`). -/
namespace ContainerCommand.Number

/-- The text is one or more decimal digits. -/
structure IsDigits (cs : List Char) : Prop where
  ne_nil : cs ≠ []
  isDigit : ∀ c ∈ cs, c.isDigit = true

/-- The text is an integer in decimal notation. -/
inductive Denotes : List Char → Int → Prop
  | bare {digits} : IsDigits digits → Denotes digits (Nat.ofDigitChars 10 digits 0)
  | plus {digits} : IsDigits digits → Denotes ('+' :: digits) (Nat.ofDigitChars 10 digits 0)
  | minus {digits} : IsDigits digits → Denotes ('-' :: digits) (-Nat.ofDigitChars 10 digits 0)

/-- The text is an integer in decimal notation, with no sign but a minus, and with a zero in front only
if that is all. -/
inductive Canonical : List Char → Int → Prop
  | zero : Canonical ['0'] 0
  | positive {digits} : IsDigits digits → digits.head? ≠ some '0' →
      Canonical digits (Nat.ofDigitChars 10 digits 0)
  | negative {digits} : IsDigits digits → digits.head? ≠ some '0' →
      Canonical ('-' :: digits) (-Nat.ofDigitChars 10 digits 0)

variable {cs digits : List Char} {n : Int}

theorem Canonical.denotes (h : Canonical cs n) : Denotes cs n := by
  cases h with
  | zero => exact .bare ⟨List.cons_ne_nil _ _, List.forall_mem_singleton.mpr rfl⟩
  | positive hdigits _ => exact .bare hdigits
  | negative hdigits _ => exact .minus hdigits

/-! ### Reading -/

theorem fitsWord_iff : fitsWord n = true ↔ -(2 ^ 63) ≤ n ∧ n ≤ 2 ^ 63 - 1 := by
  have hcount : (wordCount (64 - 1) : Int) = 2 ^ 63 := by decide
  rw [fitsWord, fitsSigned, Bool.and_eq_true, decide_eq_true_eq, decide_eq_true_eq, hcount]
  omega

/-- Digits are no sign. -/
theorem IsDigits.splitSign_eq (h : IsDigits digits) : splitSign digits = (false, digits) := by
  obtain ⟨hne, hdigits⟩ := h
  unfold splitSign
  split
  · exact absurd (hdigits '-' (List.mem_cons_self ..)) (by decide)
  · exact absurd (hdigits '+' (List.mem_cons_self ..)) (by decide)
  · rfl

/-- The integer of digits behind a sign. -/
def signed (negative : Bool) (digits : List Char) : Int :=
  if negative then -(Nat.ofDigitChars 10 digits 0 : Int) else Nat.ofDigitChars 10 digits 0

/-- What stands behind the sign is digits, and both together are the integer. -/
theorem denotes_iff :
    Denotes cs n ↔ IsDigits (splitSign cs).2 ∧ signed (splitSign cs).1 (splitSign cs).2 = n := by
  constructor
  · intro h
    cases h with
    | bare hdigits =>
      rw [hdigits.splitSign_eq]
      exact ⟨hdigits, rfl⟩
    | plus hdigits => exact ⟨hdigits, rfl⟩
    | minus hdigits => exact ⟨hdigits, rfl⟩
  · unfold splitSign
    split
    · rintro ⟨hdigits, rfl⟩
      exact .minus hdigits
    · rintro ⟨hdigits, rfl⟩
      exact .plus hdigits
    · rintro ⟨hdigits, rfl⟩
      exact .bare hdigits

theorem ofDigits_map_digitValue (digits : List Char) :
    ofDigits (digits.map digitValue) = Nat.ofDigitChars 10 digits 0 := by
  rw [ofDigits, List.foldl_map]
  rfl

theorem isDigits_iff :
    IsDigits digits ↔ (digits.isEmpty || !digits.all Char.isDigit) = false := by
  rw [Bool.or_eq_false_iff, Bool.not_eq_false', List.isEmpty_eq_false_iff, List.all_eq_true]
  exact ⟨fun h => ⟨h.ne_nil, h.isDigit⟩, fun h => ⟨h.1, h.2⟩⟩

theorem readInteger?_eq (cs : List Char) :
    readInteger? cs =
      if (splitSign cs).2.isEmpty || !(splitSign cs).2.all Char.isDigit then none
      else if fitsWord (signed (splitSign cs).1 (splitSign cs).2) then
        some (signed (splitSign cs).1 (splitSign cs).2)
      else none := by
  unfold readInteger? signed
  simp only [ofDigits_map_digitValue]

/-- **An integer is read exactly from the texts that denote it**, if a signed word holds it. -/
theorem readInteger?_eq_some_iff :
    readInteger? cs = some n ↔ Denotes cs n ∧ -(2 ^ 63) ≤ n ∧ n ≤ 2 ^ 63 - 1 := by
  rw [denotes_iff, isDigits_iff, ← fitsWord_iff, readInteger?_eq]
  cases (splitSign cs).2.isEmpty || !(splitSign cs).2.all Char.isDigit with
  | true => simp
  | false =>
    simp only [Bool.false_eq_true, if_false, true_and]
    split
    · rename_i hfits
      rw [Option.some.injEq]
      exact ⟨fun h => ⟨h, h ▸ hfits⟩, And.left⟩
    · rename_i hfits
      refine iff_of_false (fun h => by cases h) ?_
      rintro ⟨rfl, h⟩
      exact hfits h

/-! ### Writing -/

theorem toNat_of_isDigit {c : Char} (h : c.isDigit = true) : 48 ≤ c.toNat ∧ c.toNat ≤ 57 := by
  simpa [Char.isDigit, UInt32.le_iff_toNat_le] using h

theorem digitValue_lt {c : Char} (h : c.isDigit = true) : digitValue c < 10 := by
  obtain ⟨-, hle⟩ := toNat_of_isDigit h
  show c.toNat - 48 < 10
  omega

theorem digitChar_digitValue {c : Char} (h : c.isDigit = true) :
    Nat.digitChar (digitValue c) = c := by
  obtain ⟨hlow, hhigh⟩ := toNat_of_isDigit h
  apply Char.toNat_inj.mp
  show (Nat.digitChar (c.toNat - 48)).toNat = c.toNat
  rw [Nat.toNat_digitChar_of_lt_ten (by omega)]
  omega

theorem isDigits_toDigits (m : Nat) : IsDigits (Nat.toDigits 10 m) :=
  ⟨Nat.toDigits_ne_nil, fun _ hc => Nat.isDigit_of_mem_toDigits (by decide) (by decide) hc⟩

theorem digitText_digitsOf (m : Nat) : Numeral.digitText (digitsOf m) = Nat.toDigits 10 m := by
  rw [Numeral.digitText, digitsOf, List.map_map]
  calc (Nat.toDigits 10 m).map (Nat.digitChar ∘ digitValue)
    _ = (Nat.toDigits 10 m).map id := List.map_congr_left fun c hc =>
      digitChar_digitValue ((isDigits_toDigits m).isDigit c hc)
    _ = Nat.toDigits 10 m := List.map_id _

/-- The digits of a number begin with a zero only if it is zero. The induction takes the last digit
off. -/
theorem head?_toDigits_ne {m : Nat} (h : 0 < m) : (Nat.toDigits 10 m).head? ≠ some '0' := by
  induction m using Nat.strongRecOn with
  | ind m ih =>
    by_cases hm : m < 10
    · rw [Nat.toDigits_of_lt_base hm]
      intro hzero
      have hchar := congrArg Char.toNat (Option.some.inj hzero)
      rw [Nat.toNat_digitChar_of_lt_ten hm] at hchar
      have : '0'.toNat = 48 := rfl
      omega
    · have hfront : 0 < m / 10 := by omega
      have hsplit := Nat.toDigits_append_toDigits (by decide) hfront (Nat.mod_lt m (by decide : 0 < 10))
      rw [Nat.div_add_mod] at hsplit
      rw [← hsplit, List.head?_append_of_ne_nil _ Nat.toDigits_ne_nil]
      exact ih (m / 10) (by omega) hfront

/-- The digits of a number begin with no zero that other digits follow. -/
theorem head?_digitsOf (m : Nat) :
    ((digitsOf m).head? == some 0 && decide (1 < (digitsOf m).length)) = false := by
  rcases Nat.eq_zero_or_pos m with rfl | hpos
  · decide
  · have hdigits := isDigits_toDigits m
    obtain ⟨c, rest, hsplit⟩ := List.exists_cons_of_ne_nil hdigits.ne_nil
    have hne := head?_toDigits_ne hpos
    have hc := hdigits.isDigit c (hsplit ▸ List.mem_cons_self ..)
    rw [hsplit] at hne
    rw [digitsOf, hsplit]
    have : digitValue c ≠ 0 := by
      intro hzero
      have hchar := digitChar_digitValue hc
      rw [hzero] at hchar
      exact hne (congrArg some hchar.symm)
    simp [this]

/-- Digits behind a number that is not zero are the digits behind its own. -/
theorem toDigits_ofDigitChars_of_pos {front : Nat} (hfront : 0 < front)
    (hdigits : ∀ c ∈ digits, c.isDigit = true) :
    Nat.toDigits 10 (Nat.ofDigitChars 10 digits front) = Nat.toDigits 10 front ++ digits := by
  induction digits generalizing front with
  | nil => exact (List.append_nil _).symm
  | cons c digits ih =>
    obtain ⟨hc, hrest⟩ := List.forall_mem_cons.mp hdigits
    have hlt := digitValue_lt hc
    have hpos : 0 < 10 * front + digitValue c := by omega
    calc Nat.toDigits 10 (Nat.ofDigitChars 10 (c :: digits) front)
      _ = Nat.toDigits 10 (10 * front + digitValue c) ++ digits := ih hpos hrest
      _ = Nat.toDigits 10 front ++ [c] ++ digits := by
        rw [← Nat.toDigits_append_toDigits (by decide) hfront hlt, Nat.toDigits_of_lt_base hlt,
          digitChar_digitValue hc]
      _ = Nat.toDigits 10 front ++ c :: digits := by rw [List.append_assoc, List.singleton_append]

/-- Digits that begin with no zero are the digits of their number, which is not zero. -/
theorem IsDigits.toDigits_eq (h : IsDigits digits) (hhead : digits.head? ≠ some '0') :
    0 < Nat.ofDigitChars 10 digits 0 ∧
      Nat.toDigits 10 (Nat.ofDigitChars 10 digits 0) = digits := by
  obtain ⟨c, rest, rfl⟩ := List.exists_cons_of_ne_nil h.ne_nil
  obtain ⟨hc, hrest⟩ := List.forall_mem_cons.mp h.isDigit
  have hlt := digitValue_lt hc
  have hpos : 0 < digitValue c := by
    by_contra hzero
    have hchar := digitChar_digitValue hc
    rw [Nat.eq_zero_of_not_pos hzero] at hchar
    exact hhead (congrArg some hchar.symm)
  have hdigits : Nat.toDigits 10 (Nat.ofDigitChars 10 (c :: rest) 0) = c :: rest :=
    calc Nat.toDigits 10 (Nat.ofDigitChars 10 (c :: rest) 0)
      _ = Nat.toDigits 10 (Nat.ofDigitChars 10 rest (digitValue c)) := by
        rw [Nat.ofDigitChars_cons, Nat.mul_zero, Nat.zero_add]
        rfl
      _ = Nat.toDigits 10 (digitValue c) ++ rest := toDigits_ofDigitChars_of_pos hpos hrest
      _ = c :: rest := by
        rw [Nat.toDigits_of_lt_base hlt, digitChar_digitValue hc, List.singleton_append]
  refine ⟨Nat.pos_of_ne_zero fun hzero => hhead ?_, hdigits⟩
  rw [← hdigits, hzero]
  rfl

theorem toList_intText (n : Int) :
    (Value.intText n).toList = (if n < 0 then ['-'] else []) ++ Nat.toDigits 10 n.natAbs := by
  simp [Value.intText, Numeral.ofInt, Numeral.text, digitText_digitsOf]

theorem eq_minus_or_isDigit_of_mem {c : Char} (h : c ∈ (Value.intText n).toList) :
    c = '-' ∨ c.isDigit = true := by
  rw [toList_intText, List.mem_append] at h
  rcases h with h | h
  · split at h
    · exact .inl (List.mem_singleton.mp h)
    · cases h
  · exact .inr ((isDigits_toDigits _).isDigit c h)

theorem not_mem_intText {c : Char} (hminus : c ≠ '-') (hdigit : c.isDigit = false) :
    c ∉ (Value.intText n).toList := by
  intro h
  rcases eq_minus_or_isDigit_of_mem h with h | h
  · exact hminus h
  · rw [hdigit] at h
    cases h

/-- **The text of an integer is its canonical one.** -/
theorem canonical_intText (n : Int) : Canonical (Value.intText n).toList n := by
  have hvalue : (Nat.ofDigitChars 10 (Nat.toDigits 10 n.natAbs) 0 : Int) = n.natAbs := by
    rw [Nat.ofDigitChars_ten_toDigits]
  have hdigits := isDigits_toDigits n.natAbs
  rw [toList_intText]
  rcases Int.lt_trichotomy n 0 with hneg | rfl | hpos
  · have h := Canonical.negative hdigits (head?_toDigits_ne (by omega))
    rw [hvalue, show -(n.natAbs : Int) = n by omega] at h
    rwa [if_pos hneg]
  · exact .zero
  · have h := Canonical.positive hdigits (head?_toDigits_ne (by omega))
    rw [hvalue, show (n.natAbs : Int) = n by omega] at h
    rwa [if_neg (by omega)]

/-- An integer has no other canonical text. -/
theorem Canonical.eq_intText (h : Canonical cs n) : cs = (Value.intText n).toList := by
  rw [toList_intText]
  cases h with
  | zero => rfl
  | positive hdigits hhead =>
    obtain ⟨-, heq⟩ := hdigits.toDigits_eq hhead
    rw [if_neg (by omega), Int.natAbs_natCast, heq, List.nil_append]
  | negative hdigits hhead =>
    obtain ⟨hpos, heq⟩ := hdigits.toDigits_eq hhead
    rw [if_pos (by omega), Int.natAbs_neg, Int.natAbs_natCast, heq, List.singleton_append]

theorem Numeral.toInt_ofInt (n : Int) : (Numeral.ofInt n).toInt = n := by
  have h : ofDigits (digitsOf n.natAbs) = n.natAbs := by
    rw [digitsOf, ofDigits_map_digitValue, Nat.ofDigitChars_ten_toDigits]
  simp only [Numeral.toInt, Numeral.ofInt, h, decide_eq_true_eq]
  split <;> omega

/-! ### Blanks around an integer -/

theorem isBlank_of_isDigit {c : Char} (h : c.isDigit = true) : Text.isBlank c = false := by
  obtain ⟨hlow, hhigh⟩ := toNat_of_isDigit h
  simp [Text.isBlank]
  omega

/-- A text that denotes an integer is one word. -/
theorem Denotes.isWord (h : Denotes cs n) : Text.IsWord cs := by
  cases h with
  | bare hdigits =>
    exact ⟨hdigits.ne_nil, fun c hc => isBlank_of_isDigit (hdigits.isDigit c hc)⟩
  | plus hdigits | minus hdigits =>
    refine ⟨List.cons_ne_nil _ _, List.forall_mem_cons.mpr ⟨by decide, fun c hc => ?_⟩⟩
    exact isBlank_of_isDigit (hdigits.isDigit c hc)

theorem Denotes.trim_eq (h : Denotes cs n) : Text.trim cs = cs :=
  (Text.trims_self (fun c hc => h.isWord.solid c (List.mem_of_mem_head? hc)) fun c hc =>
    h.isWord.solid c (List.mem_of_getLast? hc)).trim_eq

end ContainerCommand.Number
