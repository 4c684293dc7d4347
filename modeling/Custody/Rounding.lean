/-!
# Rounding

Ratios of natural numbers are rounded to the nearest whole number, and from the middle to the even
one.

* **`two_mul_roundDiv_bounds`**: what is rounded to is never more than a half away.
-/

namespace Custody

/-- `num / den`, rounded to the nearest whole number and to the even one from the middle. -/
def roundDiv (num den : Nat) : Nat :=
  let low := num / den
  let twice := 2 * (num % den)
  if twice < den then low
  else if den < twice then low + 1
  else if low % 2 = 0 then low else low + 1

@[simp] theorem roundDiv_one (n : Nat) : roundDiv n 1 = n := by
  simp [roundDiv, Nat.mod_one]

theorem two_mul_roundDiv_bounds {num den : Nat} (positive : 0 < den) :
    2 * num ≤ 2 * (roundDiv num den * den) + den
      ∧ 2 * (roundDiv num den * den) ≤ 2 * num + den := by
  have split_num : den * (num / den) + num % den = num := Nat.div_add_mod num den
  have remainder : num % den < den := Nat.mod_lt num positive
  have low : num / den * den = den * (num / den) := Nat.mul_comm _ _
  have high : (num / den + 1) * den = den * (num / den) + den := by
    rw [Nat.add_mul, Nat.one_mul, low]
  simp only [roundDiv]
  split
  · rw [low]; omega
  · split
    · rw [high]; omega
    · split
      · rw [low]; omega
      · rw [high]; omega

end Custody
