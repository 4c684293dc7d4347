import Custody.Proofs.Decimal.Exact
import Mathlib.Data.Nat.Find

/-!
# Rounding keeps the order

A sum or product that has no room is rounded to as many places as there is room for, and how many
these are depends on the value. So the rounded value of a number depends on its value alone, and a
smaller number is not rounded to a greater one: it may be rounded to more places, but the mantissa
of the greater one, which has no room for one place more, is then large enough.

* **`Decimal.fit_value`**: what a number is rounded to.
* **`Decimal.fit_mono`**: rounding keeps the order.
* **`Stored.add_mono`**, **`Stored.ofInt_mul_mono`**: so do sums, and multiples that are not
  negative.
-/

namespace Custody

/-! ## Ratios -/

/-- From the middle a ratio is rounded to an even number. -/
theorem roundDiv_even {num den q : Nat} (hden : 0 < den) (h : 2 * num = (2 * q + 1) * den) :
    roundDiv num den % 2 = 0 := by
  -- right in the middle there is a half, so the denominator is even
  obtain ⟨half, rfl⟩ : ∃ half, den = 2 * half := by
    have hodd : (2 * q + 1) * den % 2 = 0 := by omega
    rw [Nat.add_mul, Nat.one_mul, Nat.mul_assoc] at hodd
    exact ⟨den / 2, by omega⟩
  have hnum : num = 2 * half * q + half := by
    have hright : (2 * q + 1) * (2 * half) = 2 * (2 * half * q + half) := by ring
    omega
  have hmod : num % (2 * half) = half := by
    rw [hnum, Nat.mul_add_mod, Nat.mod_eq_of_lt (by omega)]
  simp only [roundDiv, hmod, lt_irrefl, if_false]
  split <;> omega

theorem roundDiv_mul {num den : Nat} (hden : 0 < den) : roundDiv (num * den) den = num := by
  simp [roundDiv, hden]

/-- **A smaller ratio is not rounded to a greater number.** If it were, the greater one would be no
further up than the middle between both, and the smaller one no further down, so both would be in
the middle and be rounded to even numbers next to each other. -/
theorem roundDiv_mono {num den num' den' : Nat} (hden : 0 < den) (hden' : 0 < den')
    (h : num * den' ≤ num' * den) : roundDiv num den ≤ roundDiv num' den' := by
  by_contra hlt
  have hbounds : 2 * (roundDiv num den * den) ≤ 2 * num + den := (two_mul_roundDiv_bounds hden).2
  have hbounds' : 2 * num' ≤ 2 * (roundDiv num' den' * den') + den' :=
    (two_mul_roundDiv_bounds hden').1
  set r := roundDiv num den with hr
  set r' := roundDiv num' den' with hr'
  have hstep : r' + 1 ≤ r := by omega
  have hlow : (2 * r' + 1) * den ≤ 2 * num := by
    have := Nat.mul_le_mul_right den hstep
    nlinarith
  have hhigh : 2 * num' ≤ (2 * r' + 1) * den' := by linarith
  -- both are in the middle
  have hchain : (2 * r' + 1) * den * den' ≤ 2 * num * den' := Nat.mul_le_mul_right den' hlow
  have hchain' : 2 * num' * den ≤ (2 * r' + 1) * den' * den := Nat.mul_le_mul_right den hhigh
  have hnum : 2 * num = (2 * r' + 1) * den := by
    refine Nat.eq_of_mul_eq_mul_right hden' ?_
    linarith
  have hnum' : 2 * num' = (2 * r' + 1) * den' := by
    refine Nat.eq_of_mul_eq_mul_right hden ?_
    linarith
  have heven := roundDiv_even hden hnum
  have heven' := roundDiv_even hden' hnum'
  have hnext : r = r' + 1 := by
    by_contra hne
    have hfar : r' + 2 ≤ r := by omega
    have := Nat.mul_le_mul_right den hfar
    nlinarith
  omega

namespace Decimal

variable {d e : Decimal}

/-! ## Rounding to places -/

/-- The number of steps of the last of `places` places that the value is rounded to. -/
def roundedTo (d : Decimal) (places : Nat) : Nat :=
  roundDiv (d.mantissa.natAbs * scale places) (scale d.places)

theorem mantissa_nonneg (h : 0 ≤ d.value) : 0 ≤ d.mantissa := by
  have hmantissa : (0 : ℚ) ≤ d.mantissa := by
    rw [mantissa_eq]
    exact mul_nonneg h (scale_pos' d.places).le
  exact_mod_cast hmantissa

theorem natAbs_eq (h : 0 ≤ d.value) :
    (d.mantissa.natAbs : ℚ) = d.value * (scale d.places : ℚ) := by
  rw [← mantissa_eq, ← Int.cast_natCast, Int.natAbs_of_nonneg (mantissa_nonneg h)]

theorem roundedTo_mono (hd : 0 ≤ d.value) (h : d.value ≤ e.value) (places : Nat) :
    d.roundedTo places ≤ e.roundedTo places := by
  refine roundDiv_mono (scale_pos _) (scale_pos _) ?_
  have hcross : (d.mantissa.natAbs * scale places * scale e.places : ℚ)
      ≤ e.mantissa.natAbs * scale places * scale d.places := by
    rw [natAbs_eq hd, natAbs_eq (hd.trans h)]
    have hscales : (0 : ℚ) ≤ scale d.places * scale places * scale e.places := by positivity
    nlinarith [mul_le_mul_of_nonneg_right h hscales]
  exact_mod_cast hcross

/-- With the places that a number has it is not rounded. -/
theorem roundedTo_add (d : Decimal) (more : Nat) :
    d.roundedTo (d.places + more) = d.mantissa.natAbs * scale more := by
  have hsplit : d.mantissa.natAbs * scale (d.places + more)
      = d.mantissa.natAbs * scale more * scale d.places := by
    rw [scale_add]
    ring
  rw [roundedTo, hsplit, roundDiv_mul (scale_pos _)]

theorem roundedTo_places (d : Decimal) : d.roundedTo d.places = d.mantissa.natAbs := by
  simpa using d.roundedTo_add 0

theorem value_eq_roundedTo (hd : 0 ≤ d.value) {places : Nat} (h : d.places ≤ places) :
    d.value = d.roundedTo places / scale places := by
  obtain ⟨more, rfl⟩ := Nat.exists_eq_add_of_le h
  have hscale := (scale_pos' d.places).ne'
  have hmore := (scale_pos' more).ne'
  rw [roundedTo_add, scale_add, Nat.cast_mul, Nat.cast_mul, natAbs_eq hd]
  field_simp

/-- Dropping places rounds to those that are left. -/
theorem dropPlaces_eq (hd : 0 ≤ d.value) {dropped : Nat} (h : dropped ≤ d.places) :
    d.dropPlaces dropped = ⟨d.roundedTo (d.places - dropped), d.places - dropped⟩ := by
  have hsign : ¬ d.mantissa < 0 := not_lt.mpr (mantissa_nonneg hd)
  have hscale : scale d.places = scale (d.places - dropped) * scale dropped := by
    rw [← scale_add, Nat.sub_add_cancel h]
  have hratio : roundDiv d.mantissa.natAbs (scale dropped) = d.roundedTo (d.places - dropped) := by
    refine Nat.le_antisymm (roundDiv_mono (scale_pos _) (scale_pos _) ?_)
      (roundDiv_mono (scale_pos _) (scale_pos _) ?_)
    · rw [hscale, Nat.mul_assoc]
    · rw [hscale, Nat.mul_assoc]
  rw [dropPlaces, hratio, if_neg hsign]

/-! ## Room -/

/-- The most places that a value has room for. -/
def fitPlaces (d : Decimal) : Nat :=
  Nat.findGreatest (fun places => d.roundedTo places ≤ maxMantissa) maxPlaces

theorem roundedTo_ofInt (n places : Nat) : (ofInt n).roundedTo places = n * scale places := by
  have := (ofInt n).roundedTo_add places
  rwa [show (ofInt n).places = 0 from rfl, Nat.zero_add] at this

theorem roundedTo_zero_le (hd : 0 ≤ d.value) (hroom : d.value ≤ maxMantissa) :
    d.roundedTo 0 ≤ maxMantissa := by
  have hle := roundedTo_mono (e := ofInt maxMantissa) hd (by simpa using hroom) 0
  rwa [roundedTo_ofInt, scale_zero, Nat.mul_one] at hle

theorem fitPlaces_le (d : Decimal) : d.fitPlaces ≤ maxPlaces := Nat.findGreatest_le maxPlaces

theorem roundedTo_fitPlaces_le (hd : 0 ≤ d.value) (hroom : d.value ≤ maxMantissa) :
    d.roundedTo d.fitPlaces ≤ maxMantissa :=
  Nat.findGreatest_spec (P := fun places => d.roundedTo places ≤ maxMantissa)
    (Nat.zero_le maxPlaces)
    (roundedTo_zero_le hd hroom)

theorem lt_roundedTo {places : Nat} (h : d.fitPlaces < places) (hplaces : places ≤ maxPlaces) :
    maxMantissa < d.roundedTo places :=
  Nat.not_le.mp (Nat.findGreatest_is_greatest (P := fun places => d.roundedTo places ≤ maxMantissa)
    h hplaces)

theorem le_fitPlaces {places : Nat} (hplaces : places ≤ maxPlaces)
    (h : d.roundedTo places ≤ maxMantissa) : places ≤ d.fitPlaces :=
  Nat.le_findGreatest hplaces h

/-- A smaller value has room for as many places. -/
theorem fitPlaces_anti (hd : 0 ≤ d.value) (h : d.value ≤ e.value) (hroom : e.value ≤ maxMantissa) :
    e.fitPlaces ≤ d.fitPlaces :=
  le_fitPlaces e.fitPlaces_le
    ((roundedTo_mono hd h _).trans (roundedTo_fitPlaces_le (hd.trans h) hroom))

/-! ## Rounding to what fits -/

theorem fits_iff : d.fits = true ↔ d.mantissa.natAbs ≤ maxMantissa ∧ d.places ≤ maxPlaces := by
  rw [fits, Bool.and_eq_true, decide_eq_true_eq, decide_eq_true_eq]

theorem fits_dropPlaces_iff (hd : 0 ≤ d.value) {dropped : Nat} (h : dropped ≤ d.places) :
    (d.dropPlaces dropped).fits = true ↔ d.roundedTo (d.places - dropped) ≤ maxMantissa
      ∧ d.places - dropped ≤ maxPlaces := by
  rw [dropPlaces_eq hd h, fits_iff, Int.natAbs_natCast]

/-- As few places are dropped as there have to be. -/
theorem exists_fit_eq (hd : 0 ≤ d.value) (hroom : d.value ≤ maxMantissa) :
    ∃ dropped ≤ d.places, d.fit = d.dropPlaces dropped ∧ (d.dropPlaces dropped).fits = true
      ∧ ∀ fewer < dropped, ¬ (d.dropPlaces fewer).fits = true := by
  -- without any places the value fits, so the search does not fail
  have hall : (d.dropPlaces d.places).fits = true := by
    rw [fits_dropPlaces_iff hd le_rfl, Nat.sub_self]
    exact ⟨roundedTo_zero_le hd hroom, Nat.zero_le _⟩
  cases hfind : (List.range (d.places + 1)).find? fun dropped => (d.dropPlaces dropped).fits with
  | none =>
    rw [List.find?_eq_none] at hfind
    exact absurd hall (hfind d.places (List.mem_range.mpr (Nat.lt_succ_self _)))
  | some dropped =>
    obtain ⟨hfits, hmem, hfewer⟩ := List.find?_range_eq_some.mp hfind
    refine ⟨dropped, Nat.le_of_lt_succ (List.mem_range.mp hmem), ?_, hfits, fun fewer hlt => ?_⟩
    · rw [fit, hfind]
    · simpa using hfewer fewer hlt

/-- **What a number is rounded to.** It is rounded to the most places that its value has room
for. -/
theorem fit_value (hd : 0 ≤ d.value) (hroom : d.value ≤ maxMantissa) :
    d.fit.value = d.roundedTo d.fitPlaces / scale d.fitPlaces := by
  obtain ⟨dropped, hdropped, hfit, hfits, hfewer⟩ := exists_fit_eq hd hroom
  obtain ⟨hmantissa, hplaces⟩ := (fits_dropPlaces_iff hd hdropped).mp hfits
  by_cases hzero : dropped = 0
  · -- it fits as it is, and further places would not change its value
    subst hzero
    rw [hfit, dropPlaces_zero, value_eq_roundedTo hd]
    exact le_fitPlaces hplaces hmantissa
  · have hgreatest : d.fitPlaces = d.places - dropped := by
      refine le_antisymm ?_ (le_fitPlaces hplaces hmantissa)
      by_contra hlt
      rw [not_le] at hlt
      have hroomy := roundedTo_fitPlaces_le hd hroom
      have hmost := d.fitPlaces_le
      by_cases hmore : d.fitPlaces ≤ d.places
      · -- then fewer places would have been dropped
        refine hfewer (d.places - d.fitPlaces) (by omega) ?_
        rw [fits_dropPlaces_iff hd (Nat.sub_le _ _), Nat.sub_sub_self hmore]
        exact ⟨hroomy, hmost⟩
      · -- then none would have been
        refine hfewer 0 (Nat.pos_of_ne_zero hzero) ?_
        rw [fits_dropPlaces_iff hd (Nat.zero_le _), Nat.sub_zero, roundedTo_places]
        refine ⟨?_, by omega⟩
        obtain ⟨more, hsum⟩ := Nat.exists_eq_add_of_le (Nat.le_of_not_le hmore)
        rw [hsum, roundedTo_add] at hroomy
        exact (Nat.le_mul_of_pos_right _ (scale_pos more)).trans hroomy
    rw [hfit, dropPlaces_eq hd hdropped, hgreatest, value, Int.cast_natCast]

/-- Where there is no room for one place more, the mantissa without it is at least a tenth of the
largest. -/
theorem maxMantissa_le_of_lt {places : Nat} (h : maxMantissa < d.roundedTo (places + 1)) :
    maxMantissa ≤ 10 * d.roundedTo places := by
  have hbounds : 2 * (d.roundedTo (places + 1) * scale d.places)
      ≤ 2 * (d.mantissa.natAbs * scale (places + 1)) + scale d.places :=
    (two_mul_roundDiv_bounds (scale_pos d.places)).2
  have hscale : 2 * (maxMantissa + 1) * scale d.places
      ≤ 2 * (d.roundedTo (places + 1) * scale d.places) := by
    rw [Nat.mul_assoc]
    exact Nat.mul_le_mul_left 2 (Nat.mul_le_mul_right _ h)
  -- the number with one place less is a tenth, rounded
  have hratio : (2 * maxMantissa + 1) * scale d.places ≤ d.mantissa.natAbs * scale places * 20 := by
    unfold roundedTo at hbounds hscale
    rw [scale_succ] at hbounds hscale
    linarith
  have htenth : roundDiv (2 * maxMantissa + 1) 20 ≤ d.roundedTo places :=
    roundDiv_mono (by decide) (scale_pos _) hratio
  have hlargest : maxMantissa ≤ 10 * roundDiv (2 * maxMantissa + 1) 20 := by decide
  omega

/-- **Rounding keeps the order.** -/
theorem fit_mono (hd : 0 ≤ d.value) (h : d.value ≤ e.value) (hroom : e.value ≤ maxMantissa) :
    d.fit.value ≤ e.fit.value := by
  rw [fit_value hd (h.trans hroom), fit_value (hd.trans h) hroom]
  have hroom' := h.trans hroom
  rcases Nat.eq_or_lt_of_le (fitPlaces_anti hd h hroom) with hsame | hfewer
  · rw [hsame]
    have := roundedTo_mono hd h d.fitPlaces
    gcongr
  · -- the greater one is rounded to fewer places, since it has no room for one place more
    have hlarge := maxMantissa_le_of_lt (lt_roundedTo (Nat.lt_succ_self e.fitPlaces)
      (Nat.succ_le_of_lt (hfewer.trans_le d.fitPlaces_le)))
    have hsmall := roundedTo_fitPlaces_le hd hroom'
    have hscale : scale (e.fitPlaces + 1) ≤ scale d.fitPlaces :=
      Nat.pow_le_pow_right (by decide) hfewer
    rw [scale_succ] at hscale
    have hcross : d.roundedTo d.fitPlaces * scale e.fitPlaces
        ≤ e.roundedTo e.fitPlaces * scale d.fitPlaces := by
      calc d.roundedTo d.fitPlaces * scale e.fitPlaces
          ≤ 10 * e.roundedTo e.fitPlaces * scale e.fitPlaces :=
            Nat.mul_le_mul_right _ (hsmall.trans hlarge)
        _ = e.roundedTo e.fitPlaces * (scale e.fitPlaces * 10) := by ring
        _ ≤ e.roundedTo e.fitPlaces * scale d.fitPlaces := Nat.mul_le_mul_left _ hscale
    rw [div_le_div_iff₀ (scale_pos' _) (scale_pos' _)]
    exact_mod_cast hcross

theorem fit_congr (hd : 0 ≤ d.value) (h : d.value = e.value) (hroom : e.value ≤ maxMantissa) :
    d.fit.value = e.fit.value :=
  le_antisymm (fit_mono hd h.le hroom) (fit_mono (h ▸ hd) h.ge (h ▸ hroom))

/-! ## Numbers that there is room for -/

/-- A number from zero up that there is room for. -/
structure Stored (d : Decimal) : Prop where
  fits : d.fits = true
  nonneg : 0 ≤ d.value

theorem Stored.ofNat {n : Nat} (h : n ≤ maxMantissa) : (ofInt n).Stored where
  fits := fits_iff.mpr ⟨h, Nat.zero_le _⟩
  nonneg := by simp

/-- Rounding makes room. -/
theorem Stored.of_fit (hd : 0 ≤ d.value) (hroom : d.value ≤ maxMantissa) : d.fit.Stored := by
  obtain ⟨dropped, _, hfit, hfits, _⟩ := exists_fit_eq hd hroom
  refine ⟨hfit ▸ hfits, ?_⟩
  rw [fit_value hd hroom]
  positivity

theorem Stored.value_le (h : d.Stored) : d.value ≤ maxMantissa := by
  have hmantissa : (d.mantissa.natAbs : ℚ) ≤ maxMantissa := by
    exact_mod_cast (fits_iff.mp h.fits).1
  have hscale : (1 : ℚ) ≤ scale d.places := by exact_mod_cast scale_pos d.places
  rw [natAbs_eq h.nonneg] at hmantissa
  exact (le_mul_of_one_le_right h.nonneg hscale).trans hmantissa

/-- A number that is not above one that there is room for is not rounded above it. -/
theorem Stored.fit_le (he : e.Stored) (hd : 0 ≤ d.value) (h : d.value ≤ e.value) :
    d.fit.value ≤ e.value := by
  have hle := fit_mono hd h he.value_le
  rwa [fit_of_fits he.fits] at hle

/-! ## Sums and products -/

variable {a b a' b' : Decimal}

/-- A sum is the exact one, rounded. -/
theorem Stored.add (ha : a.Stored) (hb : b.Stored) (hroom : a.value + b.value ≤ maxMantissa) :
    (a + b).Stored ∧ (a + b).value = (exactSum a b).fit.value := by
  have hnonneg : 0 ≤ (exactSum a b).value := by
    rw [value_exactSum]
    exact add_nonneg ha.nonneg hb.nonneg
  have hsum : (exactSum a b).value ≤ maxMantissa := by rwa [value_exactSum]
  change (Decimal.add a b).Stored ∧ (Decimal.add a b).value = _
  rw [Decimal.add]
  -- a zero is passed over, which comes to the same as adding it
  split
  · next hzero =>
    refine ⟨hb, ?_⟩
    rw [fit_congr hnonneg (e := b) _ hb.value_le, fit_of_fits hb.fits]
    rw [value_exactSum, value_eq_zero_iff.mpr hzero, zero_add]
  · split
    · next hzero =>
      refine ⟨ha, ?_⟩
      rw [fit_congr hnonneg (e := a) _ ha.value_le, fit_of_fits ha.fits]
      rw [value_exactSum, value_eq_zero_iff.mpr hzero, add_zero]
    · exact ⟨.of_fit hnonneg hsum, rfl⟩

/-- **Sums keep the order.** -/
theorem Stored.add_mono (ha : a.Stored) (hb : b.Stored) (ha' : a'.Stored) (hb' : b'.Stored)
    (hleft : a.value ≤ a'.value) (hright : b.value ≤ b'.value)
    (hroom : a'.value + b'.value ≤ maxMantissa) : (a + b).value ≤ (a' + b').value := by
  have hle : a.value + b.value ≤ a'.value + b'.value := add_le_add hleft hright
  rw [(ha.add hb (hle.trans hroom)).2, (ha'.add hb' hroom).2]
  refine fit_mono ?_ ?_ ?_
  · rw [value_exactSum]
    exact add_nonneg ha.nonneg hb.nonneg
  · rwa [value_exactSum, value_exactSum]
  · rwa [value_exactSum]

/-- A sum that is not above a whole number is not rounded above it. -/
theorem Stored.add_le (ha : a.Stored) (hb : b.Stored) {n : Nat} (hn : n ≤ maxMantissa)
    (h : a.value + b.value ≤ n) : (a + b).value ≤ n := by
  have hroom : (n : ℚ) ≤ maxMantissa := by exact_mod_cast hn
  rw [(ha.add hb (h.trans hroom)).2]
  have hle := (Stored.ofNat hn).fit_le (d := exactSum a b) (by
    rw [value_exactSum]
    exact add_nonneg ha.nonneg hb.nonneg) (by simpa using h)
  simpa using hle

/-- A multiple is the exact one, rounded. -/
theorem ofInt_mul_stored {n : Nat} {m : Decimal} (hm : 0 ≤ m.value)
    (hroom : n * m.value ≤ maxMantissa) : (ofInt n * m).Stored
      ∧ (ofInt n * m).value = (exactProduct (ofInt n) m).fit.value := by
  have hvalue : (exactProduct (ofInt n) m).value = n * m.value := by simp
  have hnonneg : 0 ≤ (exactProduct (ofInt n) m).value := by
    rw [hvalue]
    positivity
  change (Decimal.mul (ofInt n) m).Stored ∧ (Decimal.mul (ofInt n) m).value = _
  rw [Decimal.mul]
  -- a product with zero is zero at once, which comes to the same
  split
  · next hzero =>
    have hproduct : (exactProduct (ofInt n) m).mantissa = 0 := by
      rcases hzero with hzero | hzero
      · exact Int.mul_eq_zero.mpr (.inl hzero)
      · exact Int.mul_eq_zero.mpr (.inr hzero)
    have hstored : (0 : Decimal).Stored := Stored.ofNat (Nat.zero_le _)
    refine ⟨hstored, ?_⟩
    rw [fit_congr hnonneg (e := 0) _ hstored.value_le, fit_of_fits hstored.fits]
    rw [value_eq_zero_iff.mpr hproduct]
    exact (value_ofInt 0).symm
  · exact ⟨.of_fit hnonneg (hvalue ▸ hroom), rfl⟩

/-- **Multiples keep the order.** -/
theorem ofInt_mul_mono {n n' : Nat} {m m' : Decimal} (hm : 0 ≤ m.value) (hn : n ≤ n')
    (hle : m.value ≤ m'.value) (hroom : n' * m'.value ≤ maxMantissa) :
    (ofInt n * m).value ≤ (ofInt n' * m').value := by
  have hmul : (n : ℚ) * m.value ≤ n' * m'.value := by gcongr
  rw [(ofInt_mul_stored hm (hmul.trans hroom)).2, (ofInt_mul_stored (hm.trans hle) hroom).2]
  refine fit_mono ?_ ?_ ?_
  · rw [value_exactProduct, value_ofInt]
    positivity
  · simpa using hmul
  · simpa using hroom

/-- A multiple of a number that is at most one. -/
theorem ofInt_mul_le {n : Nat} {m : Decimal} (hm : 0 ≤ m.value) (hle : m.value ≤ 1)
    (hn : n ≤ maxMantissa) : (ofInt n * m).value ≤ n := by
  have hmul : (n : ℚ) * m.value ≤ n := mul_le_of_le_one_right (Nat.cast_nonneg n) hle
  have hroom : (n : ℚ) ≤ maxMantissa := by exact_mod_cast hn
  rw [(ofInt_mul_stored hm (hmul.trans hroom)).2]
  have hle := (Stored.ofNat hn).fit_le (d := exactProduct (ofInt n) m) (by
    rw [value_exactProduct, value_ofInt]
    positivity) (by simpa using hmul)
  simpa using hle

end Decimal

end Custody
