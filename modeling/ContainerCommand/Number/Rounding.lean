/-! Quotients rounded to the nearest natural number.

Every inexact step on numbers in this library is one quotient of natural numbers
rounded once: `roundDiv`. It is within half a unit of the exact quotient
(`two_mul_roundDiv_mul_le`, `le_two_mul_roundDiv_mul`), and a half goes to the even
neighbour (`roundDiv_even_of_half`). -/
namespace ContainerCommand.Number

/-- `num / den` rounded to the nearest natural number, a half to the even one. -/
def roundDiv (num den : Nat) : Nat :=
  if 2 * (num % den) < den then num / den
  else if den < 2 * (num % den) then num / den + 1
  else num / den + num / den % 2

/-- The rounded quotient is at most half a unit too large. -/
theorem two_mul_roundDiv_mul_le (num den : Nat) :
    2 * (roundDiv num den * den) ≤ 2 * num + den := by
  have h := Nat.div_add_mod num den
  have hmul : num / den * den = den * (num / den) := Nat.mul_comm _ _
  unfold roundDiv
  split
  · omega
  · split
    · rw [Nat.add_mul]; omega
    · rcases Nat.mod_two_eq_zero_or_one (num / den) with he | he <;>
        rw [he, Nat.add_mul] <;> omega

/-- The rounded quotient is at most half a unit too small. -/
theorem le_two_mul_roundDiv_mul (num den : Nat) (hden : 0 < den) :
    2 * num ≤ 2 * (roundDiv num den * den) + den := by
  have h := Nat.div_add_mod num den
  have hmul : num / den * den = den * (num / den) := Nat.mul_comm _ _
  have hlt := Nat.mod_lt num hden
  unfold roundDiv
  split
  · omega
  · split
    · rw [Nat.add_mul]; omega
    · rcases Nat.mod_two_eq_zero_or_one (num / den) with he | he <;>
        rw [he, Nat.add_mul] <;> omega

/-- A half goes to the even neighbour. -/
theorem roundDiv_even_of_half {num den : Nat} (h : 2 * (num % den) = den) :
    roundDiv num den % 2 = 0 := by
  unfold roundDiv
  rw [if_neg (by omega), if_neg (by omega)]
  omega

end ContainerCommand.Number
