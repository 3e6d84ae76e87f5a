import ContainerCommand.Proofs.Template.Integer
import Mathlib.Data.Rat.Floor

/-! A floating-point number in the place of an integer.

A finite number is a rational (`Binary64.rational?`), and a placeholder that asks for an integer shows
it without its fraction (`withoutFraction`), moved into the range of a signed word (`truncate_eq`). So
what is shown is the number's own integer only within that range, and no number is refused
(`fill_integer_float`). -/
namespace ContainerCommand

namespace Number

/-- A rational without its fraction, moved toward zero. -/
def withoutFraction (q : ℚ) : ℤ :=
  if 0 ≤ q then ⌊q⌋ else ⌈q⌉

theorem withoutFraction_neg (q : ℚ) : withoutFraction (-q) = -withoutFraction q := by
  rcases lt_trichotomy q 0 with hneg | rfl | hpos
  · rw [withoutFraction, if_pos (by linarith), withoutFraction, if_neg (not_le.mpr hneg),
      Int.floor_neg]
  · rfl
  · rw [withoutFraction, if_neg (by linarith), withoutFraction, if_pos hpos.le, Int.ceil_neg]

theorem le_withoutFraction_iff {q : ℚ} {n : ℤ} (hn : 0 < n) : n ≤ withoutFraction q ↔ (n : ℚ) ≤ q := by
  have hn' : (0 : ℚ) < n := Int.cast_pos.mpr hn
  by_cases hq : 0 ≤ q
  · rw [withoutFraction, if_pos hq, Int.le_floor]
  · rw [not_le] at hq
    rw [withoutFraction, if_neg (not_le.mpr hq)]
    have hceil : ⌈q⌉ ≤ 0 := Int.ceil_le.mpr (by simpa using hq.le)
    exact iff_of_false (by omega) (by linarith)

theorem withoutFraction_le_neg_iff {q : ℚ} {n : ℤ} (hn : 0 < n) :
    withoutFraction q ≤ -n ↔ q ≤ -n := by
  have h := le_withoutFraction_iff (q := -q) hn
  rw [withoutFraction_neg] at h
  exact le_neg.trans (h.trans le_neg)

namespace Binary64

/-- The exact value of a finite number. -/
def rational? (x : Binary64) : Option ℚ :=
  match x.datum with
  | .finite negative mantissa exponent =>
    let magnitude : ℚ := mantissa * 2 ^ exponent
    some (if negative then -magnitude else magnitude)
  | _ => none

theorem natCast_wordCount (n : ℕ) : (wordCount n : ℚ) = 2 ^ n := by
  show ((2 ^ n : ℕ) : ℚ) = 2 ^ n
  norm_num

theorem ratio_eq (mantissa : ℕ) (exponent : ℤ) :
    ((ratio mantissa exponent).1 : ℚ) / (ratio mantissa exponent).2 = mantissa * 2 ^ exponent := by
  unfold ratio shift
  split
  · rename_i hpos
    obtain ⟨k, rfl⟩ := Int.eq_ofNat_of_zero_le hpos
    simp [natCast_wordCount]
  · rename_i hneg
    obtain ⟨k, rfl⟩ : ∃ k : ℕ, exponent = -k := ⟨(-exponent).toNat, by omega⟩
    simp [natCast_wordCount, div_eq_mul_inv]

/-- The whole part of a magnitude is the quotient that the magnitude is kept as. -/
theorem withoutFraction_ratio (mantissa : ℕ) (exponent : ℤ) :
    withoutFraction (mantissa * 2 ^ exponent) =
      ((ratio mantissa exponent).1 / (ratio mantissa exponent).2 : ℕ) := by
  rw [← ratio_eq, withoutFraction, if_pos (by positivity), Rat.floor_natCast_div_natCast]
  rfl

/-- **A finite number is truncated toward zero**, and moved to the nearest signed word. -/
theorem truncate_eq {x : Binary64} {q : ℚ} (h : x.rational? = some q) :
    x.truncate = clampSigned 64 (withoutFraction q) := by
  unfold rational? at h
  split at h
  · rename_i negative mantissa exponent hdatum
    cases h
    simp only [truncate, hdatum]
    cases negative with
    | true => rw [if_pos rfl, if_pos rfl, withoutFraction_neg, withoutFraction_ratio]
    | false =>
      rw [if_neg Bool.false_ne_true, if_neg Bool.false_ne_true, withoutFraction_ratio]
  · cases h

end Binary64

end Number

namespace Template.Argument
open Number

variable {t : Argument} {x : Binary64} {q : ℚ}

/-- **A number is shown as its own integer only if a signed word holds that.** Where a template asks for
an integer, every finite number is filled in, never refused. It is shown as the number without its
fraction exactly if the number lies between `-(2 ^ 63 + 1)` and `2 ^ 63`; each number at or beyond an
end is shown as the last signed word there, which is another integer. -/
theorem fill_integer_float (h : t.body.conversion? = some .integer) (name : String)
    (hx : x.rational? = some q) :
    ∃ n text, Canonical text.toList n ∧ t.fill name (.float x) = .ok (t.body.fill text) ∧
      (n = withoutFraction q ↔ -(2 ^ 63 + 1) < q ∧ q < 2 ^ 63) ∧
      (2 ^ 63 ≤ q → n = 2 ^ 63 - 1) ∧ (q ≤ -(2 ^ 63 + 1) → n = -(2 ^ 63)) := by
  have hupper : (2 ^ 63 : ℤ) ≤ withoutFraction q ↔ 2 ^ 63 ≤ q := by
    rw [le_withoutFraction_iff (by decide), Int.cast_pow, Int.cast_ofNat]
  have hlower : withoutFraction q ≤ -(2 ^ 63 + 1) ↔ q ≤ -(2 ^ 63 + 1) := by
    rw [withoutFraction_le_neg_iff (by decide), Int.cast_add, Int.cast_pow, Int.cast_ofNat,
      Int.cast_one]
  have hclamp : clampSigned 64 (withoutFraction q) =
      max (-(2 ^ 63)) (min (2 ^ 63 - 1) (withoutFraction q)) := rfl
  refine ⟨_, _, canonical_intText x.truncate, fill_of_convert_eq_ok h rfl, ?_, fun hq => ?_,
    fun hq => ?_⟩
  · rw [Binary64.truncate_eq hx, hclamp, ← not_le, ← not_le, ← hupper, ← hlower]
    omega
  · rw [Binary64.truncate_eq hx, hclamp]
    have := hupper.mpr hq
    omega
  · rw [Binary64.truncate_eq hx, hclamp]
    have := hlower.mpr hq
    omega

/-- A negative number with a fraction, and the least signed word. -/
theorem fill_integer_float_least :
    let t : Argument := ⟨"-l=%d", .slotted [] "-l=" .integer "" [], false⟩
    let fraction : Binary64 := .ofScaled true 25 (-1)
    let least : Binary64 := .ofInt (-(2 ^ 63))
    parse "-l=%d" = .ok t ∧
      fraction.rational? = some (-5 / 2) ∧ t.fill "length" (.float fraction) = .ok ["-l=-2"] ∧
      least.rational? = some (-(2 ^ 63)) ∧
      t.fill "length" (.float least) = .ok ["-l=-9223372036854775808"] := by
  intro t fraction least
  have h : t.body.conversion? = some .integer := rfl
  have hfraction : fraction.rational? = some (-5 / 2) := by decide +kernel
  have hleast : least.rational? = some (-(2 ^ 63)) := by decide +kernel
  obtain ⟨n, text, hcanonical, hfilled, hown, -⟩ := fill_integer_float h "length" hfraction
  obtain ⟨m, text', hcanonical', hfilled', hown', -⟩ := fill_integer_float h "length" hleast
  obtain rfl : n = -2 := (hown.mpr (by norm_num)).trans (by decide +kernel)
  obtain rfl : m = -(2 ^ 63) := (hown'.mpr (by norm_num)).trans (by decide +kernel)
  have htext : text = "-2" :=
    String.toList_inj.mp (hcanonical.eq_intText.trans (by decide +kernel))
  have htext' : text' = "-9223372036854775808" :=
    String.toList_inj.mp (hcanonical'.eq_intText.trans (by decide +kernel))
  rw [htext] at hfilled
  rw [htext'] at hfilled'
  exact ⟨by decide +kernel, hfraction, hfilled, hleast, hfilled'⟩

/-- Ten to the nineteenth is beyond the signed words: another integer is shown, and nothing is
refused. -/
theorem fill_integer_float_saturates :
    let t : Argument := ⟨"-l %d", .slotted ["-l"] "" .integer "" [], false⟩
    let x : Binary64 := .ofScaled false 1 19
    parse "-l %d" = .ok t ∧ x.rational? = some (10 ^ 19) ∧ withoutFraction (10 ^ 19) = 10 ^ 19 ∧
      t.fill "length" (.float x) = .ok ["-l", "9223372036854775807"] ∧
      (Value.intText (10 ^ 19)) = "10000000000000000000" := by
  refine ⟨by decide +kernel, by decide +kernel, by decide +kernel, by decide +kernel, by decide +kernel⟩

end Template.Argument

end ContainerCommand
