import Custody.Calendar.WorkingDay
import Custody.Proofs.Config.InForce
import Custody.Proofs.Unit.Order

/-!
# Moderate settings

Settings may be used and still lead out of the supported range, with a period of millions of years
or with holidays on every day there is. Those in force are moderate: fractions of five places at
most, periods of at most a thousand years or a million days, and a working day that comes before all
sentences.

* **`EnglandAndWales.config_moderate`**: the settings in force are moderate.
-/

namespace Custody

open Custody.Calendar

/-- A fraction from zero to one, written with at most five places. -/
structure Decimal.IsShare (d : Decimal) : Prop where
  places_le : d.places ≤ 5
  nonneg : 0 ≤ d.value
  le_one : d.value ≤ 1

/-- Settings that keep what is calculated within reach: short fractions, periods of a thousand years
or a million days at most, and a working day before the years that sentences are passed in. -/
structure Config.Moderate (config : Config) : Prop where
  points : config.releasePoints.AreShort
  parole : config.releasePoints.ParoleFirst
  licenceThreshold : config.releasePoints.licenceThresholdMonths.toNat ≤ 12000
  minimumYears : ∀ (variant : Curfew) years, (variant.terms config).minimumYears = some years →
    years.toNat ≤ 1000
  maximumYears : ∀ (variant : Curfew) years, (variant.terms config).maximumYears = some years →
    years.toNat ≤ 1000
  eligibilityDays : ∀ variant : Curfew, 0 ≤ (variant.terms config).minimumEligibilityDays
    ∧ (variant.terms config).minimumEligibilityDays ≤ 1000000
  custodialDays : ∀ variant : Curfew, 0 ≤ (variant.terms config).minimumCustodialDays
    ∧ (variant.terms config).minimumCustodialDays ≤ 1000000
  deductionDays : ∀ variant : Curfew, 0 ≤ (variant.terms config).deductionDays
    ∧ (variant.terms config).deductionDays ≤ 1000000
  fractions : ∀ entry ∈ config.ersed.fractions, entry.fraction.IsShare
  maximumDays : 0 ≤ config.ersed.maximumDays ∧ config.ersed.maximumDays ≤ 1000000
  supervisionYears : config.tused.maximumYears.toNat ≤ 1000
  supervisionMonths : config.tused.periodMonths.toNat ≤ 12000
  trancheTwoYears : config.earlyRelease.trancheTwoYears.toNat ≤ 1000
  violentYears : config.earlyRelease.violentExclusionYears.toNat ≤ 1000
  sdsPlusYears : config.classification.sdsPlusMinimumYears.toNat ≤ 1000
  listCMinimumYears : config.classification.listCMinimumYears.toNat ≤ 1000
  listCMaximumYears : config.classification.listCMaximumYears.toNat ≤ 1000
  edsYears : config.classification.edsAutomaticMaximumYears.toNat ≤ 1000
  workingDay : ∃ d : Date, d.day ≤ 0 ∧ isWorkingDay config.bankHolidays.dates d = true

theorem Config.Moderate.parole_isShare {config : Config} (h : config.Moderate) {track : Track}
    {m : Decimal} (hm : config.releasePoints.paroleMultiplier? track = some m) : m.IsShare where
  places_le := h.parole.places_le track m hm
  nonneg := h.parole.nonneg track m hm
  le_one := (h.parole.le_fraction track m hm).trans (h.points.fraction_le_one track)

theorem Config.Moderate.fraction_isShare {config : Config} (h : config.Moderate) {date : Date}
    {m : Decimal} (hm : config.ersed.fractionOn? date = some m) : m.IsShare := by
  obtain ⟨entry, hentry, rfl⟩ := RemovalTerms.exists_mem_of_fractionOn? hm
  exact h.fractions entry hentry

namespace EnglandAndWales

/-- **The settings in force are moderate.** -/
theorem config_moderate : config.Moderate where
  points := releasePoints_areShort
  parole := releasePoints_paroleFirst
  licenceThreshold := by decide
  minimumYears variant years h := by
    cases variant <;> cases h
    decide
  maximumYears variant years h := by
    cases variant <;> cases h
    decide
  eligibilityDays variant := by cases variant <;> decide
  custodialDays variant := by cases variant <;> decide
  deductionDays variant := by cases variant <;> decide
  fractions := by
    intro entry hentry
    rcases List.mem_cons.mp hentry with rfl | hentry
    · exact ⟨by decide, by decide +kernel, by decide +kernel⟩
    · rw [List.mem_singleton.mp hentry]
      exact ⟨by decide, by decide +kernel, by decide +kernel⟩
  maximumDays := by decide
  supervisionYears := by decide
  supervisionMonths := by decide
  trancheTwoYears := by decide
  violentYears := by decide
  sdsPlusYears := by decide
  listCMinimumYears := by decide
  listCMaximumYears := by decide
  edsYears := by decide
  workingDay := ⟨on 0 3 1, by decide, by decide⟩

end EnglandAndWales

end Custody
