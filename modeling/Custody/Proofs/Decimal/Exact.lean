import Custody.Decimal
import Mathlib.Data.Rat.Floor
import Mathlib.Tactic.FieldSimp
import Mathlib.Tactic.Linarith
import Mathlib.Tactic.NormNum
import Mathlib.Tactic.Positivity
import Mathlib.Tactic.Ring

/-!
# Exact decimals

The number that a decimal writes is its `value`. A sum or product is rounded only when it has no
room, and decimals of a few places and moderate size always have room, so on them arithmetic is that
of the rational numbers.

* **`Decimal.ceil_eq`**: rounding up is the ceiling of the value.
* **`Decimal.value_ofInt_mul`**: multiples of short decimals are exact.
-/

namespace Custody.Decimal

/-- The number that is written. -/
def value (d : Decimal) : ℚ := (d.mantissa : ℚ) / (scale d.places : ℚ)

/-- A number written with at most five places, from zero to a thousand million. -/
structure IsShort (d : Decimal) : Prop where
  places_le : d.places ≤ 5
  nonneg : 0 ≤ d.value
  le : d.value ≤ 1000000000

/-! ## The value of a decimal -/

theorem scale_pos' (places : Nat) : (0 : ℚ) < (scale places : ℚ) := by
  exact_mod_cast scale_pos places

theorem scale_add (a b : Nat) : scale (a + b) = scale a * scale b :=
  Nat.pow_add 10 a b

theorem mantissa_eq (d : Decimal) : (d.mantissa : ℚ) = d.value * (scale d.places : ℚ) := by
  rw [value, div_mul_cancel₀ _ (scale_pos' d.places).ne']

@[simp] theorem value_ofInt (n : Int) : (ofInt n).value = n := by
  simp [value, ofInt]

theorem value_eq_zero_iff {d : Decimal} : d.value = 0 ↔ d.mantissa = 0 := by
  rw [value, div_eq_zero_iff]
  constructor
  · rintro (h | h)
    · exact_mod_cast h
    · exact absurd h (scale_pos' d.places).ne'
  · intro h
    exact .inl (by exact_mod_cast h)

/-- Writing further places does not change the value. -/
theorem widen_eq (d : Decimal) (more : Nat) :
    (d.widen more : ℚ) = d.value * (scale (d.places + more) : ℚ) := by
  rw [widen, Int.cast_mul, mantissa_eq, scale_add]
  push_cast
  ring

/-- The order of decimals is that of their values. -/
theorem le_iff_value {a b : Decimal} : a ≤ b ↔ a.value ≤ b.value := by
  have hscale := scale_pos' (a.places + b.places)
  have hwiden : a ≤ b ↔ (a.widen b.places : ℚ) ≤ b.widen a.places := by
    rw [Int.cast_le]
    exact decide_eq_true_iff
  rw [hwiden, widen_eq, widen_eq, Nat.add_comm b.places, mul_le_mul_iff_left₀ hscale]

theorem ceil_eq (d : Decimal) : d.ceil = ⌈d.value⌉ := by
  rw [ceil, value, Rat.ceil_intCast_div_natCast]

/-! ## Room -/

/-- The mantissa of a short number has at most fifteen digits. -/
theorem IsShort.fits {d : Decimal} (h : d.IsShort) : d.fits = true := by
  have hscale : (scale d.places : ℚ) ≤ 100000 := by
    have : scale d.places ≤ scale 5 := Nat.pow_le_pow_right (by decide) h.places_le
    have hfive : scale 5 = 100000 := by decide
    exact_mod_cast hfive ▸ this
  have hmantissa := d.mantissa_eq
  have hlower : (0 : ℚ) ≤ d.mantissa := by
    rw [hmantissa]
    exact mul_nonneg h.nonneg (scale_pos' d.places).le
  have hupper : (d.mantissa : ℚ) ≤ 1000000000 * 100000 := by
    rw [hmantissa]
    exact mul_le_mul h.le hscale (scale_pos' d.places).le (by norm_num)
  -- five places and a billion are far below the largest mantissa
  have hlower' : 0 ≤ d.mantissa := by exact_mod_cast hlower
  have hupper' : d.mantissa ≤ 100000000000000 := by
    have : (d.mantissa : ℚ) ≤ ((100000000000000 : Int) : ℚ) := by
      refine hupper.trans (by norm_num)
    exact_mod_cast this
  have hplaces := h.places_le
  rw [Decimal.fits, Bool.and_eq_true, decide_eq_true_eq, decide_eq_true_eq]
  simp only [maxMantissa, maxPlaces]
  omega

/-! ## Arithmetic -/

/-- The sum before it is rounded. -/
def exactSum (a b : Decimal) : Decimal :=
  ⟨a.widen (max a.places b.places - a.places) + b.widen (max a.places b.places - b.places),
    max a.places b.places⟩

/-- The product before it is rounded. -/
def exactProduct (a b : Decimal) : Decimal := ⟨a.mantissa * b.mantissa, a.places + b.places⟩

@[simp] theorem value_exactSum (a b : Decimal) : (exactSum a b).value = a.value + b.value := by
  have ha : a.places + (max a.places b.places - a.places) = max a.places b.places := by omega
  have hb : b.places + (max a.places b.places - b.places) = max a.places b.places := by omega
  have hscale := (scale_pos' (max a.places b.places)).ne'
  rw [exactSum, value, Int.cast_add, widen_eq, widen_eq, ha, hb]
  field_simp

@[simp] theorem value_exactProduct (a b : Decimal) :
    (exactProduct a b).value = a.value * b.value := by
  rw [exactProduct, value, Int.cast_mul, mantissa_eq, mantissa_eq, scale_add, Nat.cast_mul]
  have ha := (scale_pos' a.places).ne'
  have hb := (scale_pos' b.places).ne'
  field_simp

/-- A multiple that is short is exact. -/
theorem value_ofInt_mul {n : Int} {m : Decimal} (hm : m.places ≤ 5)
    (h0 : 0 ≤ (n : ℚ) * m.value) (hle : (n : ℚ) * m.value ≤ 1000000000) :
    (ofInt n * m).value = n * m.value ∧ (ofInt n * m).places ≤ 5 := by
  change (mul (ofInt n) m).value = _ ∧ (mul (ofInt n) m).places ≤ 5
  rw [mul]
  -- zero is returned at once, and anything else is kept as it is written
  split
  · next hzero =>
    have hproduct : (n : ℚ) * m.value = 0 := by
      rcases hzero with hzero | hzero
      · rw [show n = 0 from hzero, Int.cast_zero, zero_mul]
      · rw [value_eq_zero_iff.mpr hzero, mul_zero]
    rw [hproduct]
    exact ⟨value_ofInt 0, Nat.zero_le 5⟩
  · have hvalue : (exactProduct (ofInt n) m).value = n * m.value := by
      rw [value_exactProduct, value_ofInt]
    have hplaces : (exactProduct (ofInt n) m).places ≤ 5 := by
      show 0 + m.places ≤ 5
      omega
    have hshort : (exactProduct (ofInt n) m).IsShort := ⟨hplaces, hvalue ▸ h0, hvalue ▸ hle⟩
    change (exactProduct (ofInt n) m).fit.value = _ ∧ (exactProduct (ofInt n) m).fit.places ≤ 5
    rw [fit_of_fits hshort.fits]
    exact ⟨hvalue, hplaces⟩

end Custody.Decimal
