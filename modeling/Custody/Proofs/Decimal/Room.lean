import Custody.Proofs.Decimal.Monotone

/-!
# Room for what is exact

A number that is a whole number of steps of some place, and not too many of them, can be stored with
that many places. If the exact result of a sum or product is such a number, it is not rounded,
whatever the places that its operands are written with, and whatever its sign.

* **`Decimal.InSteps`**: a whole number of steps.
* **`Decimal.fit_value_of_room`**: what there is room for is not rounded.
* **`Decimal.value_add_of_room`**, **`Decimal.value_mul_of_room`**: exact sums and products.
-/

namespace Custody.Decimal

/-! ## The opposite number -/

@[simp] theorem value_neg (d : Decimal) : d.neg.value = -d.value := by
  simp [value, neg, neg_div]

theorem fits_neg (d : Decimal) : d.neg.fits = d.fits := by
  rw [fits, fits, neg, Int.natAbs_neg]

theorem dropPlaces_neg (d : Decimal) (dropped : Nat) :
    d.neg.dropPlaces dropped = (d.dropPlaces dropped).neg := by
  obtain ⟨mantissa, places⟩ := d
  simp only [dropPlaces, neg, Int.natAbs_neg, mk.injEq, and_true]
  rcases lt_trichotomy mantissa 0 with hneg | rfl | hpos
  · rw [if_neg (by omega), if_pos hneg, neg_neg]
  · have hzero : roundDiv (0 : Int).natAbs (scale dropped) = 0 := by
      simp [roundDiv, scale_pos dropped]
    rw [hzero]
    rfl
  · rw [if_pos (by omega), if_neg (by omega)]

/-- The opposite number is rounded to the opposite. -/
theorem fit_neg (d : Decimal) : d.neg.fit = d.fit.neg := by
  simp only [fit, dropPlaces_neg, fits_neg, show d.neg.places = d.places from rfl]
  cases (List.range (d.places + 1)).find? fun dropped => (d.dropPlaces dropped).fits <;> rfl

/-! ## Steps -/

/-- A whole number of steps of the last of some places. -/
def InSteps (places : Nat) (x : ℚ) : Prop := ∃ k : Int, x = k / scale places

namespace InSteps

variable {places : Nat} {x y : ℚ}

theorem zero (places : Nat) : InSteps places 0 := ⟨0, by simp⟩

theorem add (hx : InSteps places x) (hy : InSteps places y) : InSteps places (x + y) := by
  obtain ⟨k, rfl⟩ := hx
  obtain ⟨l, rfl⟩ := hy
  exact ⟨k + l, by push_cast; ring⟩

theorem int_mul (n : Int) (hx : InSteps places x) : InSteps places (n * x) := by
  obtain ⟨k, rfl⟩ := hx
  exact ⟨n * k, by push_cast; ring⟩

theorem sum {xs : List ℚ} (h : ∀ x ∈ xs, InSteps places x) : InSteps places xs.sum := by
  induction xs with
  | nil => exact .zero places
  | cons x xs ih =>
    rw [List.forall_mem_cons] at h
    rw [List.sum_cons]
    exact h.1.add (ih h.2)

end InSteps

/-- A decimal is a whole number of steps of the places that it is written with, and of more. -/
theorem value_inSteps (d : Decimal) {places : Nat} (h : d.places ≤ places) :
    InSteps places d.value := by
  obtain ⟨more, rfl⟩ := Nat.exists_eq_add_of_le h
  have hscale := (scale_pos' d.places).ne'
  have hmore := (scale_pos' more).ne'
  refine ⟨d.mantissa * scale more, ?_⟩
  rw [value, scale_add]
  push_cast
  field_simp

/-! ## Room -/

variable {places : Nat} {d : Decimal}

theorem fit_value_of_nonneg (hplaces : places ≤ maxPlaces) (hd : 0 ≤ d.value)
    (hsteps : InSteps places d.value) (hroom : d.value * scale places ≤ maxMantissa) :
    d.fit.value = d.value := by
  obtain ⟨k, hk⟩ := hsteps
  have hscale := scale_pos' places
  have hmantissa : d.value * scale places = k := by
    rw [hk, div_mul_cancel₀ _ hscale.ne']
  -- the same number, written with those places, fits as it is
  have hfits : (⟨k, places⟩ : Decimal).fits = true := by
    rw [fits_iff]
    refine ⟨?_, hplaces⟩
    have hnonneg : (0 : ℚ) ≤ k := by
      rw [← hmantissa]
      exact mul_nonneg hd hscale.le
    have hnonneg' : 0 ≤ k := by exact_mod_cast hnonneg
    have hle : (k : ℚ) ≤ maxMantissa := hmantissa ▸ hroom
    have hle' : k ≤ maxMantissa := by exact_mod_cast hle
    show k.natAbs ≤ maxMantissa
    omega
  have hvalue : d.value = (⟨k, places⟩ : Decimal).value := hk
  have hstored : (⟨k, places⟩ : Decimal).Stored := ⟨hfits, hvalue ▸ hd⟩
  rw [fit_congr hd hvalue hstored.value_le, fit_of_fits hfits, hvalue]

/-- **What there is room for is not rounded.** -/
theorem fit_value_of_room (hplaces : places ≤ maxPlaces) (hsteps : InSteps places d.value)
    (hroom : |d.value| * scale places ≤ maxMantissa) : d.fit.value = d.value := by
  -- rounding does not look at the sign
  rcases le_total 0 d.value with hd | hd
  · rw [abs_of_nonneg hd] at hroom
    exact fit_value_of_nonneg hplaces hd hsteps hroom
  · have hneg : d.neg.fit.value = d.neg.value := by
      rw [abs_of_nonpos hd, ← value_neg] at hroom
      refine fit_value_of_nonneg hplaces ?_ ?_ hroom
      · rw [value_neg]
        exact neg_nonneg.mpr hd
      · have hopposite := hsteps.int_mul (-1)
        rwa [Int.cast_neg, Int.cast_one, neg_one_mul, ← value_neg] at hopposite
    rw [fit_neg, value_neg, value_neg] at hneg
    exact neg_injective hneg

variable {a b : Decimal}

theorem value_add_of_room (hplaces : places ≤ maxPlaces)
    (hsteps : InSteps places (a.value + b.value))
    (hroom : |a.value + b.value| * scale places ≤ maxMantissa) :
    (a + b).value = a.value + b.value := by
  show (add a b).value = _
  rw [add]
  split
  · next hzero => rw [value_eq_zero_iff.mpr hzero, zero_add]
  · split
    · next hzero => rw [value_eq_zero_iff.mpr hzero, add_zero]
    · rw [← value_exactSum] at hsteps hroom ⊢
      exact fit_value_of_room hplaces hsteps hroom

theorem value_mul_of_room (hplaces : places ≤ maxPlaces)
    (hsteps : InSteps places (a.value * b.value))
    (hroom : |a.value * b.value| * scale places ≤ maxMantissa) :
    (a * b).value = a.value * b.value := by
  show (mul a b).value = _
  rw [mul]
  -- a product with zero is zero at once
  split
  · next hzero =>
    have hproduct : a.value * b.value = 0 := by
      rcases hzero with hzero | hzero
      · rw [value_eq_zero_iff.mpr hzero, zero_mul]
      · rw [value_eq_zero_iff.mpr hzero, mul_zero]
    rw [hproduct]
    exact value_ofInt 0
  · rw [← value_exactProduct] at hsteps hroom ⊢
    exact fit_value_of_room hplaces hsteps hroom

end Custody.Decimal
