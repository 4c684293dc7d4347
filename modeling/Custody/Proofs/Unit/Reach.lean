import Custody.Proofs.Config.Moderate
import Custody.Proofs.Sentence.Reach
import Custody.Proofs.Unit.Failures

/-!
# Units within reach

The dates of a unit follow from when it was passed and from a few counts of days. If the counts are
ten million at most and the settings are moderate, every date that is made out on the way is within
the supported range, so that no step fails but for what is not covered.

* **`UnitCalculation.InReach`**: the counts of a unit that keep its dates within reach.
* **`Sentence.inReach_of_measure`**: a sentence within reach has such counts.
* **`Sentence.calculate_failsBy`**: only a fixed term without a return to custody has no release.
* **`Eligibility.date_failsBy_of_fraction`**: the schemes.
-/

namespace Custody

open Custody.Calendar Custody.Answered

variable {fails : Failure → Prop}

/-! ## Fractions of days -/

theorem ceilDays_failsBy {days : Decimal} (hlow : 0 ≤ days.value)
    (hhigh : days.value ≤ 1000000000) : FailsBy fails (ceilDays days) := by
  have hnonneg : 0 ≤ days.ceil := by
    rw [Decimal.ceil_eq]
    exact Int.ceil_nonneg hlow
  have hle : days.ceil ≤ 1000000000 := by
    rw [Decimal.ceil_eq, Int.ceil_le]
    exact_mod_cast hhigh
  have hfits : fits64 days.ceil = true := by
    have hmin : Int64.minValue.toInt ≤ -1000000000 := by decide
    have hmax : 1000000000 ≤ Int64.maxValue.toInt := by decide
    simp only [fits64, Bool.and_eq_true, decide_eq_true_eq]
    omega
  simp [ceilDays, hfits]

section Fraction

variable {n m : Int} {fraction : Decimal} (hfraction : fraction.IsShare) (hlow : 0 ≤ n)
  (hhigh : n ≤ 1000000000)

include hfraction hlow hhigh

theorem value_share :
    (Decimal.ofInt n * fraction).value = n * fraction.value
      ∧ 0 ≤ (n : ℚ) * fraction.value ∧ (n : ℚ) * fraction.value ≤ n := by
  have hdays : (0 : ℚ) ≤ n := by exact_mod_cast hlow
  have hnonneg := mul_nonneg hdays hfraction.nonneg
  have hle : (n : ℚ) * fraction.value ≤ n := mul_le_of_le_one_right hdays hfraction.le_one
  have hmax : (n : ℚ) ≤ 1000000000 := by exact_mod_cast hhigh
  exact ⟨(Decimal.value_ofInt_mul hfraction.places_le hnonneg (hle.trans hmax)).1, hnonneg, hle⟩

theorem daysAtFraction_failsBy : FailsBy fails (daysAtFraction n fraction) := by
  obtain ⟨hvalue, hnonneg, hle⟩ := value_share hfraction hlow hhigh
  have hmax : (n : ℚ) ≤ 1000000000 := by exact_mod_cast hhigh
  refine ceilDays_failsBy ?_ ?_
  · rwa [hvalue]
  · rw [hvalue]
    exact hle.trans hmax

theorem daysAtFraction_bounds (h : daysAtFraction n fraction = .ok m) : 0 ≤ m ∧ m ≤ n := by
  obtain ⟨hvalue, hnonneg, hle⟩ := value_share hfraction hlow hhigh
  rw [Sentence.ceilDays_eq_ok h, hvalue]
  exact ⟨Int.ceil_nonneg hnonneg, Int.ceil_le.mpr hle⟩

end Fraction

namespace Duration

theorem mostDays_years (n : UInt32) : (of .years n).mostDays = 366 * n.toNat := by
  simp [mostDays, count_of]

theorem mostDays_months (n : UInt32) : (of .months n).mostDays = 31 * n.toNat := by
  simp [mostDays, count_of]

section Years

variable {years : UInt32} {anchor : Date} (hyears : years.toNat ≤ 1000)
  (hanchor : 0 ≤ anchor.day ∧ anchor.day ≤ 4000000)

include hyears hanchor

/-- A thousand years lead out of the years 1 to 9999, but not out of reach. -/
theorem endDate_years_failsBy : FailsBy fails ((of .years years).endDate anchor) := by
  refine endDate_failsBy (by omega) ?_
  rw [mostDays_years]
  omega

theorem lengthInDays_years_failsBy : FailsBy fails ((of .years years).lengthInDays anchor) := by
  simp [lengthInDays, endDate_years_failsBy hyears hanchor]

end Years

end Duration

/-! ## Counts within reach -/

/-- Adjustments of ten million days at most, one way or the other. -/
structure AppliedAdjustments.InReach (a : AppliedAdjustments) : Prop where
  custodyDays : -10000000 ≤ a.custodyDays ∧ a.custodyDays ≤ 10000000
  releaseDays : -10000000 ≤ a.releaseDays ∧ a.releaseDays ≤ 10000000

/-- Counts of a unit that its dates follow from, and that keep them within reach. -/
structure UnitCalculation.InReach (c : UnitCalculation) : Prop where
  sentencedAt : 0 ≤ c.sentencedAt.day ∧ c.sentencedAt.day ≤ 4000000
  expiryDays : 0 ≤ c.expiryDays ∧ c.expiryDays ≤ 10000000
  releaseDays : 0 ≤ c.releaseDays ∧ c.releaseDays ≤ 10000000
  paroleDays : ∀ days, c.paroleDays = some days → 0 ≤ days ∧ days ≤ 10000000
  botusDaysFirst : 0 ≤ c.botusDaysFirst ∧ c.botusDaysFirst ≤ c.expiryDays
  adjustments : c.adjustments.InReach
  adjustedExpiryDays : c.adjustedExpiryDays = c.expiryDays + c.adjustments.custodyDays
  adjustedReleaseDays : c.adjustedReleaseDays = c.releaseDays + c.adjustments.releaseDays

/-- Dates do not matter. -/
theorem UnitCalculation.InReach.of_undated_eq {c c' : UnitCalculation} (h : c.InReach)
    (hsame : c'.undated = c.undated) : c'.InReach := by
  have hundated : c.undated.InReach := { h with }
  rw [← hsame] at hundated
  exact { hundated with }

theorem Breakdown.inclusive_failsBy {c : UnitCalculation} (hc : c.InReach)
    {unadjusted adjusted : Int} (hunadjusted : 0 ≤ unadjusted ∧ unadjusted ≤ 10000000)
    (hadjusted : -10000000 ≤ adjusted ∧ adjusted ≤ 20000000) :
    FailsBy fails (inclusive c.sentencedAt unadjusted adjusted) := by
  have hstart := hc.sentencedAt
  unfold inclusive
  simp only [failsBy_bind, failsBy_pure, implies_true, and_true]
  exact ⟨Date.lastDay_failsBy (by omega) (by omega) (by omega),
    fun _ _ => Date.lastDay_failsBy (by omega) (by omega) (by omega)⟩

theorem CurfewTerms.quarter_isShare : quarter.IsShare :=
  ⟨by decide, by decide +kernel, by decide +kernel⟩

namespace Curfew

variable {config : Config} (hconfig : config.Moderate) {c : UnitCalculation} (hc : c.InReach)
  (variant : Curfew)

include hconfig hc

theorem allowsLength_failsBy (days : Int) :
    FailsBy fails ((variant.terms config).allowsLength c.sentencedAt days) := by
  have hyears (years : UInt32) (hle : years.toNat ≤ 1000) :
      FailsBy fails ((Duration.of .years years).lengthInDays c.sentencedAt) :=
    Duration.lengthInDays_years_failsBy hle hc.sentencedAt
  -- either length may be left open, and a length that is set is of a thousand years at most
  unfold CurfewTerms.allowsLength
  cases hminimum : (variant.terms config).minimumYears with
  | none =>
    cases hmaximum : (variant.terms config).maximumYears with
    | none => simp
    | some maximum => simp [hyears maximum (hconfig.maximumYears variant maximum hmaximum)]
  | some minimum =>
    have hmin := hyears minimum (hconfig.minimumYears variant minimum hminimum)
    cases hmaximum : (variant.terms config).maximumYears with
    | none => simp [hmin]
    | some maximum =>
      simp [hmin, hyears maximum (hconfig.maximumYears variant maximum hmaximum)]

/-- The counts that a date is reckoned from are far from where sums are cut. -/
theorem counts_uncut (variant : Curfew) :
    wrap64 (c.releaseDays - c.botusDaysFirst) = c.releaseDays - c.botusDaysFirst
      ∧ wrap64 (c.expiryDays - c.botusDaysFirst) = c.expiryDays - c.botusDaysFirst
      ∧ wrap64 (-(variant.terms config).deductionDays) = -(variant.terms config).deductionDays := by
  have hexpiry := hc.expiryDays
  have hrelease := hc.releaseDays
  have hbotus := hc.botusDaysFirst
  have hdeduction := hconfig.deductionDays variant
  exact ⟨wrap64_of_small (by omega) (by omega), wrap64_of_small (by omega) (by omega),
    wrap64_of_small (by omega) (by omega)⟩

theorem undelayed_failsBy :
    FailsBy fails ((variant.terms config).undelayed variant c c.botusDaysFirst) := by
  have hstart := hc.sentencedAt
  have hexpiry := hc.expiryDays
  have hrelease := hc.releaseDays
  have hbotus := hc.botusDaysFirst
  have hcustody := hc.adjustments.custodyDays
  have heligibility := hconfig.eligibilityDays variant
  have hdeduction := hconfig.deductionDays variant
  have hshare := CurfewTerms.quarter_isShare
  obtain ⟨hserved, hlength, hback⟩ := counts_uncut hconfig hc variant
  unfold CurfewTerms.undelayed
  rw [hserved, hlength, hback]
  simp only [failsBy_ite, failsBy_bind, failsBy_pure, implies_true, and_true]
  refine ⟨fun _ => ?_, fun _ => ?_⟩
  -- short of the midpoint a quarter is served, from it on all but the deduction
  · refine ⟨daysAtFraction_failsBy hshare (by omega) (by omega), fun quarterDays hquarter => ?_⟩
    have hbounds := daysAtFraction_bounds hshare (by omega) (by omega) hquarter
    rw [wrap64_of_small (by omega) (by omega)]
    exact ⟨Date.plusDays_failsBy (by omega) (by omega),
      fun _ _ => Date.plusDays_failsBy (by omega) (by omega)⟩
  · rw [wrap64_of_small (by omega) (by omega)]
    refine ⟨Date.lastDay_failsBy (by omega) (by omega) (by omega), fun release hr => ?_⟩
    refine ⟨Date.lastDay_failsBy (by omega) (by omega) (by omega), fun unadjusted hu => ?_⟩
    have hrelease := Date.day_of_lastDay (fits64_iff.mpr ⟨by omega, by omega⟩) hr
    have hplain := Date.day_of_lastDay (fits64_iff.mpr ⟨by omega, by omega⟩) hu
    exact ⟨Date.plusDays_failsBy (by omega) (by omega),
      fun _ _ => Date.plusDays_failsBy (by omega) (by omega)⟩

/-- Before committals are counted, the date is well within reach. -/
theorem undelayed_bounds {date unadjusted : Date} {rule : Rule}
    (h : (variant.terms config).undelayed variant c c.botusDaysFirst
      = .ok (date, unadjusted, rule)) :
    (-12000000 ≤ date.day ∧ date.day ≤ 28000000)
      ∧ -2000000 ≤ unadjusted.day ∧ unadjusted.day ≤ 18000000 := by
  have hstart := hc.sentencedAt
  have hexpiry := hc.expiryDays
  have hrelease := hc.releaseDays
  have hbotus := hc.botusDaysFirst
  have hcustody := hc.adjustments.custodyDays
  have heligibility := hconfig.eligibilityDays variant
  have hdeduction := hconfig.deductionDays variant
  have hshare := CurfewTerms.quarter_isShare
  obtain ⟨hserved, hlength, hback⟩ := counts_uncut hconfig hc variant
  unfold CurfewTerms.undelayed at h
  rw [hserved, hlength, hback] at h
  simp only at h
  split at h
  · simp only [bind_eq_ok, pure_eq_ok, Prod.mk.injEq, Date.plusDays_eq_ok] at h
    obtain ⟨quarterDays, hquarter, d, hd, u, hu, rfl, rfl, _⟩ := h
    have hbounds := daysAtFraction_bounds hshare (by omega) (by omega) hquarter
    rw [wrap64_of_small (by omega) (by omega)] at hd
    omega
  · rw [wrap64_of_small (by omega) (by omega)] at h
    simp only [bind_eq_ok, pure_eq_ok, Prod.mk.injEq, Date.plusDays_eq_ok] at h
    obtain ⟨release, hr, unadjustedRelease, hu, d, hd, u, hu', rfl, rfl, _⟩ := h
    have hrelease := Date.day_of_lastDay (fits64_iff.mpr ⟨by omega, by omega⟩) hr
    have hplain := Date.day_of_lastDay (fits64_iff.mpr ⟨by omega, by omega⟩) hu
    omega

theorem date_failsBy :
    FailsBy fails ((variant.terms config).date variant c c.botusDaysFirst) := by
  have hstart := hc.sentencedAt
  have hexpiry := hc.expiryDays
  have hbotus := hc.botusDaysFirst
  have hcustodial := hconfig.custodialDays variant
  have hafter (d : Date) (hlow : -12000000 ≤ d.day) (hhigh : d.day ≤ 28000000) :
      FailsBy fails (CurfewTerms.afterBotus d c.botusDaysFirst) := by
    unfold CurfewTerms.afterBotus
    simp only [failsBy_ite, failsBy_ok, implies_true, and_true]
    intro _
    exact Date.plusDays_failsBy (by omega) (by omega)
  unfold CurfewTerms.date
  rw [failsBy_bind]
  refine ⟨undelayed_failsBy hconfig hc variant, ?_⟩
  rintro ⟨date, unadjusted, rule⟩ hundelayed
  obtain ⟨hdate, hunadjusted⟩ := undelayed_bounds hconfig hc variant hundelayed
  simp only [failsBy_bind, failsBy_pure, implies_true, and_true]
  -- both the date and the minimum are well below where committals could put them out of reach
  refine ⟨Date.plusDays_failsBy (by omega) (by omega), fun earliest hearliest => ?_⟩
  rw [Date.plusDays_eq_ok] at hearliest
  refine ⟨hafter _ ?_ ?_, fun _ _ => hafter _ (by omega) (by omega)⟩
  · rw [Date.day_max]
    omega
  · rw [Date.day_max]
    omega

end Curfew

namespace RemovalTerms

variable {config : Config} {c : UnitCalculation}

theorem date_failsBy_of_fraction (hconfig : config.Moderate) (hc : c.InReach)
    (hfraction : config.ersed.fractionOn? c.sentencedAt ≠ none) :
    FailsBy fails (config.ersed.date c) := by
  have hstart := hc.sentencedAt
  have hadjustments := hc.adjustments.releaseDays
  have hmaximum := hconfig.maximumDays
  obtain ⟨fraction, hfraction⟩ := Option.ne_none_iff_exists'.mp hfraction
  have hshare := hconfig.fraction_isShare hfraction
  have hanchor : 0 ≤ c.paroleDays.getD c.releaseDays
      ∧ c.paroleDays.getD c.releaseDays ≤ 10000000 := by
    cases hparole : c.paroleDays with
    | none => exact hc.releaseDays
    | some days => exact hc.paroleDays days hparole
  have hunlimited : FailsBy fails (config.ersed.unlimited c) := by
    simp only [unlimited, hfraction, failsBy_bind, failsBy_orFail, reduceCtorEq, false_implies,
      failsBy_pure, implies_true, and_true, true_and]
    intro _ hsame
    cases hsame
    refine ⟨daysAtFraction_failsBy hshare hanchor.1 (by omega), fun minimumDays hminimum => ?_⟩
    have hbounds := daysAtFraction_bounds hshare hanchor.1 (by omega) hminimum
    -- the days before removal are at most those to release or parole, whichever limit applies
    rw [wrap64_of_small (n := c.paroleDays.getD c.releaseDays - config.ersed.maximumDays) (by omega)
        (by omega),
      wrap64_of_small (n := c.paroleDays.getD c.releaseDays - 1 - config.ersed.maximumDays)
        (by omega) (by omega), wrap64_of_small (n := minimumDays - 1) (by omega) (by omega)]
    split <;> rw [wrap64_of_small (by simp only; omega) (by simp only; omega)]
    · exact ⟨Date.plusDays_failsBy (by omega) (by omega),
        fun _ _ => Date.plusDays_failsBy (by omega) (by omega)⟩
    · exact ⟨Date.plusDays_failsBy (by omega) (by omega),
        fun _ _ => Date.plusDays_failsBy (by omega) (by omega)⟩
  simp [date, hunlimited]

end RemovalTerms

namespace SupervisionTerms

variable {config : Config} (hconfig : config.Moderate) {c : UnitCalculation} (hc : c.InReach)

include hconfig hc

theorem applies_failsBy (offender : Offender) (unit : Sentence) :
    FailsBy fails (config.tused.applies config.commencements.ora offender unit c) := by
  simp [applies, Duration.lengthInDays_years_failsBy hconfig.supervisionYears hc.sentencedAt]

/-- Supervision ends within reach, and not before the date of sentencing. -/
theorem supervisionEnd_failsBy {days : Int} (hdays : -10000000 ≤ days ∧ days ≤ 20000000) :
    FailsBy fails (config.tused.supervisionEnd c.sentencedAt days) := by
  have hstart := hc.sentencedAt
  have hmonths := hconfig.supervisionMonths
  unfold supervisionEnd
  rw [failsBy_bind]
  refine ⟨Date.lastDay_failsBy (by omega) (by omega) (by omega), fun release hends => ?_⟩
  have hrelease := Date.day_of_lastDay (fits64_iff.mpr ⟨by omega, by omega⟩) hends
  -- the months are at most a million days, which the range still has
  have hlater := release.dayInMonths_le config.tused.periodMonths.toNat
  obtain ⟨e, he⟩ := Date.exists_addMonths? (d := release)
    (n := config.tused.periodMonths.toNat) (by omega) (by omega) (by omega)
  simp [he]

omit hconfig in
theorem day_le_supervisionEnd {days : Int} {d : Date}
    (h : config.tused.supervisionEnd c.sentencedAt days = .ok d) : 0 ≤ d.day := by
  have hstart := hc.sentencedAt
  simp only [supervisionEnd, bind_eq_ok, Date.lastDay_eq_ok, orFail_eq_ok] at h
  obtain ⟨release, hrelease, hd⟩ := h
  have hback := Date.day_le_of_addMonths? (by omega) hd
  omega

theorem date_failsBy : FailsBy fails (config.tused.date config.bankHolidays.dates c) := by
  have hrelease := hc.releaseDays
  have hcustody := hc.adjustments.custodyDays
  simp only [date, failsBy_bind, failsBy_pure, implies_true, and_true]
  rw [wrap64_of_small (by omega) (by omega)]
  refine ⟨supervisionEnd_failsBy hconfig hc (by omega), fun expiry hexpiry => ?_⟩
  refine ⟨supervisionEnd_failsBy hconfig hc (by omega), fun _ _ => ?_⟩
  -- going back from the end there is a working day at the latest before all sentencing
  obtain ⟨d, hd, hworking⟩ := hconfig.workingDay
  have hlatest : latestWorkingDay? config.bankHolidays.dates expiry ≠ none := by
    rw [Ne, latestWorkingDay?_eq_none_iff]
    intro hnone
    have hday := day_le_supervisionEnd hc hexpiry
    rw [hnone d (by rw [Date.le_iff]; omega)] at hworking
    cases hworking
  simp [previousWorkingDay, hlatest]

end SupervisionTerms

namespace Eligibility

variable {config : Config} (hconfig : config.Moderate) {c : UnitCalculation} (hc : c.InReach)
  (e : Eligibility)

include hconfig hc

theorem applies_failsBy (offender : Offender) (unit : Sentence) :
    FailsBy fails (e.applies config offender unit c) := by
  cases e with
  | curfew variant =>
    simp [applies, CurfewTerms.applies, Curfew.allowsLength_failsBy hconfig hc variant]
  | removal => exact failsBy_ok _
  | supervision => exact SupervisionTerms.applies_failsBy hconfig hc offender unit

/-- **No scheme leads out of reach**, if there is a fraction for early removal. -/
theorem date_failsBy_of_fraction
    (hfraction : e = .removal → config.ersed.fractionOn? c.sentencedAt ≠ none) :
    FailsBy fails (e.date config c c.botusDaysFirst) := by
  cases e with
  | curfew variant => exact Curfew.date_failsBy hconfig hc variant
  | removal => exact RemovalTerms.date_failsBy_of_fraction hconfig hc (hfraction rfl)
  | supervision => exact SupervisionTerms.date_failsBy hconfig hc

end Eligibility

/-! ## The counts of a unit -/

theorem Aggregate.botusDaysFirst_bounds {a : Aggregate}
    (h : Contiguous a.sentencedAt a.parts a.finish) :
    0 ≤ a.botusDaysFirst ∧ a.botusDaysFirst ≤ a.totalDays := by
  have hnonneg := h.days_nonneg
  have htotal := h.totalOf_days
  have hday := h.day_le
  -- the committals that come first are some of the parts
  have hsub : ((a.parts.takeWhile fun p => !isSdsPart p).filter (·.track = some .botus)).Sublist
      a.parts := List.filter_sublist.trans (List.takeWhile_sublist _)
  unfold botusDaysFirst
  split
  · refine ⟨totalOf_nonneg fun p hp => hnonneg p (hsub.subset hp), ?_⟩
    exact (totalOf_le_of_sublist hsub hnonneg).trans htotal.le
  · simp only [totalDays, Date.daysUntil]
    omega

namespace Sentence

variable {config : Config} (hconfig : config.Moderate) {s : Sentence} {a : Aggregate}
  (hs : s.InReach)

theorem servedDays_failsBy {points : ReleasePoints} (hpoints : points.AreShort)
    {parts : List Part} (htracks : ∀ p ∈ parts, p.track ≠ none) :
    FailsBy fails (servedDays points parts) := by
  refine FailsBy.foldlM (P := fun _ => True) trivial (fun _ _ _ _ _ _ => trivial) ?_
  intro part hpart served _
  obtain ⟨track, htrack⟩ := Option.ne_none_iff_exists'.mp (htracks part hpart)
  obtain ⟨m, hm, _⟩ := hpoints.exists_places_le track
  simp [htrack, orFail, ReleasePoints.multiplierFor, hm]

include hs in
theorem custodialDays_bounds (ha : s.aggregate = .ok a) :
    0 ≤ a.custodialDays ∧ a.custodialDays ≤ 10000000 := by
  have hnonneg : 0 ≤ a.custodialDays :=
    totalOf_nonneg (aggregate_contiguous ha).custodialDays_nonneg
  have hle : a.custodialDays ≤ a.totalDays := (aggregate_contiguous ha).custodialDays_le
  have hbounds := (hs.aggregate_bounds ha).2
  omega

include hconfig hs

theorem daysToRelease_failsBy (ha : s.aggregate = .ok a)
    (htracks : ∀ t ∈ s.singles, t.track ≠ none) (track : Track) :
    FailsBy fails (daysToRelease config.releasePoints track a) := by
  have hcontiguous := aggregate_contiguous ha
  have hbounds := (hs.aggregate_bounds ha).2
  have hparts : ∀ p ∈ a.parts, p.track ≠ none := by
    intro p hp
    have hmem := List.mem_map_of_mem (f := Part.track) hp
    rw [aggregate_tracks ha, List.mem_map] at hmem
    obtain ⟨t, ht, htrack⟩ := hmem
    exact htrack ▸ htracks t ht
  unfold daysToRelease
  simp only [failsBy_ite, failsBy_ok, failsBy_bind, implies_true, true_and]
  intro _
  refine ⟨servedDays_failsBy hconfig.points hparts, fun served hserved => ?_⟩
  have hvalue := servedDays_value hconfig.points hcontiguous hserved
  have hsum := sum_share_bounds hconfig.points hcontiguous.custodialDays_nonneg
  have hcustody := hcontiguous.custodialDays_le
  -- what is served of the parts is no more than their custodial days together
  refine ceilDays_failsBy (hvalue ▸ hsum.1) ?_
  rw [hvalue]
  refine hsum.2.trans ?_
  have hle : totalOf Part.custodialDays a.parts ≤ 1000000000 := by
    simp only [Aggregate.totalDays] at hbounds
    omega
  exact_mod_cast hle

theorem daysToParole_failsBy (ha : s.aggregate = .ok a) (track : Track) :
    FailsBy fails (daysToParole? config.releasePoints track a) := by
  obtain ⟨hnonneg, hle⟩ := custodialDays_bounds hs ha
  unfold daysToParole?
  cases hm : config.releasePoints.paroleMultiplier? track with
  | none => simp
  | some m => simp [daysAtFraction_failsBy (hconfig.parole_isShare hm) hnonneg (by omega)]

theorem daysToParole_bounds (ha : s.aggregate = .ok a) {track : Track} {days : Int}
    (h : daysToParole? config.releasePoints track a = .ok (some days)) :
    0 ≤ days ∧ days ≤ 10000000 := by
  obtain ⟨hnonneg, hle⟩ := custodialDays_bounds hs ha
  unfold daysToParole? at h
  cases hm : config.releasePoints.paroleMultiplier? track with
  | none =>
    rw [hm] at h
    cases h
  | some m =>
    rw [hm] at h
    obtain ⟨n, hn, hsome⟩ := bind_eq_ok.mp h
    cases hsome
    have hshared := daysAtFraction_bounds (hconfig.parole_isShare hm) hnonneg (by omega) hn
    omega

theorem releasedOnLicence_failsBy (ha : s.aggregate = .ok a) (track : Track) :
    FailsBy fails (releasedOnLicence config track s a) := by
  have hstart := (hs.aggregate_bounds ha).1
  have hmonths := hconfig.licenceThreshold
  have hlength : FailsBy fails ((Duration.of .months
      config.releasePoints.licenceThresholdMonths).lengthInDays a.sentencedAt) := by
    refine Duration.lengthInDays_failsBy (by omega) ?_
    rw [Duration.mostDays_months]
    omega
  cases track <;> simp [releasedOnLicence, hlength]

omit hconfig in
theorem identifier?_ne_none : s.identifier? ≠ none := by
  have hne := hs.components_ne_nil
  have hflat := hs.flat
  unfold identifier? first?
  generalize s.components = parts at hne hflat
  cases parts with
  | nil => exact absurd rfl hne
  | cons part rest =>
    cases part with
    | single t => simp [single?]
    | chain => cases hflat _ List.mem_cons_self

theorem measure_failsBy (htracks : ∀ t ∈ s.singles, t.track ≠ none)
    (adjustments : AppliedAdjustments) (track : Track) :
    FailsBy fails (s.measure config adjustments track) := by
  unfold measure
  rw [failsBy_bind]
  refine ⟨hs.aggregate_failsBy, fun a ha => ?_⟩
  simp [daysToRelease_failsBy hconfig hs ha htracks, daysToParole_failsBy hconfig hs ha,
    releasedOnLicence_failsBy hconfig hs ha, identifier?_ne_none hs]

omit hconfig hs in
theorem adjustments_of_measure {adjustments : AppliedAdjustments} {track : Track}
    {m : UnitCalculation} (h : s.measure config adjustments track = .ok m) :
    m.adjustments = adjustments := by
  simp only [measure, bind_eq_ok, pure_eq_ok] at h
  obtain ⟨_, _, _, _, _, _, _, _, _, _, rfl⟩ := h
  rfl

theorem inReach_of_measure {adjustments : AppliedAdjustments} (hadjustments : adjustments.InReach)
    {track : Track} {m : UnitCalculation} (h : s.measure config adjustments track = .ok m) :
    m.InReach := by
  obtain ⟨a, hm⟩ := measure_measured h
  have ha := aggregate_contiguous hm.aggregate
  obtain ⟨hstart, htotal⟩ := hs.aggregate_bounds hm.aggregate
  have hrelease := daysToRelease_bounds hconfig.points.areFractions ha hm.releaseDays
  have hbotus := Aggregate.botusDaysFirst_bounds ha
  have hsame : m.adjustments = adjustments := adjustments_of_measure h
  have hexpiry := hm.expiryDays
  have hcustody := hadjustments.custodyDays
  have hmoved := hadjustments.releaseDays
  -- counts and adjustments within reach add up without being cut
  refine ⟨hm.sentencedAt ▸ hstart, by omega, by omega, fun days hdays => ?_, ?_,
    hsame ▸ hadjustments, ?_, ?_⟩
  · exact daysToParole_bounds hconfig hs hm.aggregate (hdays ▸ hm.paroleDays)
  · rw [hm.botusDaysFirst, hexpiry]
    exact hbotus
  · rw [hm.adjustedExpiryDays, hsame]
    exact wrap64_of_small (by omega) (by omega)
  · rw [hm.adjustedReleaseDays, hsame]
    exact wrap64_of_small (by omega) (by omega)

/-! ## Expiry and release -/

omit hconfig hs in
/-- Release after a recall is not covered where a fixed term has not begun. -/
theorem releaseAfterRecall_failsBy (type : RecallType) (licenceExpiry : Date)
    {returned : Option Date} (hreturned : ∀ d, returned = some d → d.InYears) :
    FailsBy Failure.NotCovered (releaseAfterRecall type licenceExpiry returned) := by
  unfold releaseAfterRecall
  cases hdays : type.fixedTermDays? with
  | none => simp
  | some days =>
    -- a fixed term is of four weeks at most
    have hshort : 0 ≤ days ∧ days ≤ 28 := by
      cases type <;> cases hdays <;> decide
    simp only [failsBy_bind, failsBy_orFail, Failure.notCovered_unsupported, implies_true,
      true_and]
    intro date hdate
    have hbounds := (hreturned date (orFail_eq_ok.mp hdate)).day_bounds
    refine ⟨Date.lastDay_failsBy (by omega) (by omega) (by omega), fun _ _ => by simp⟩

theorem calculate_failsBy (htracks : ∀ t ∈ s.singles, t.track ≠ none) (htrack : s.track? ≠ none)
    {adjustments : AppliedAdjustments} (hadjustments : adjustments.InReach)
    {returned : Option Date} (hreturned : ∀ d, returned = some d → d.InYears) :
    FailsBy Failure.NotCovered (s.calculate config adjustments returned) := by
  have hreleased := hadjustments.releaseDays
  unfold calculate
  simp only [failsBy_bind, failsBy_orFail, htrack, false_implies, true_and, failsBy_ite,
    failsBy_pure, implies_true, and_true]
  intro track _
  refine ⟨measure_failsBy hconfig hs htracks adjustments track, fun c hmeasure => ?_⟩
  have hc := inReach_of_measure hconfig hs hadjustments hmeasure
  have hexpiry := hc.expiryDays
  have hrelease := hc.releaseDays
  have hcustody := hc.adjustments.custodyDays
  have hmoved := hc.adjustments.releaseDays
  have hadjustedExpiry := hc.adjustedExpiryDays
  have hadjustedRelease := hc.adjustedReleaseDays
  -- expiry, release and parole each end a count of days that is within reach
  refine ⟨Breakdown.inclusive_failsBy hc (by omega) (by omega), fun expiry _ => ⟨fun _ =>
    releaseAfterRecall_failsBy s.recallType expiry.releaseDate hreturned, fun _ => ?_⟩⟩
  have hadjusted : -10000000 ≤ c.adjustedReleaseDays ∧ c.adjustedReleaseDays ≤ 20000000 := by omega
  refine ⟨Breakdown.inclusive_failsBy hc hrelease hadjusted, fun release _ => ?_⟩
  split
  · next days hdays =>
    have hparole := hc.paroleDays days hdays
    simp only [failsBy_bind, failsBy_pure, implies_true, and_true]
    rw [wrap64_of_small (by omega) (by omega)]
    exact Breakdown.inclusive_failsBy hc (by omega) (by omega)
  · exact failsBy_pure _

theorem inReach_of_calculate {adjustments : AppliedAdjustments}
    (hadjustments : adjustments.InReach) {returned : Option Date} {c : UnitCalculation}
    (h : s.calculate config adjustments returned = .ok c) : c.InReach := by
  obtain ⟨_, _, _, hmeasure, hundated⟩ := calculate_undated h
  exact (inReach_of_measure hconfig hs hadjustments hmeasure).of_undated_eq hundated

end Sentence

end Custody
