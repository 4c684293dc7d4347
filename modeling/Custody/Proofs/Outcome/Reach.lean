import Custody.Proofs.Outcome.Order
import Custody.Proofs.Unit.Reach
import Custody.Proofs.Unit.Reckoned

/-!
# Outcomes within reach

Of all that units come to, one date alone is reckoned and not picked from among their dates: the day
after the last of them expires, without adjustments. It is within reach if the units are, and
besides that the units only have to be there and to expire. The tranche is read off their lengths.

* **`Outcome.ofUnits_failsBy`**: units that expire within reach come to an outcome.
* **`Outcome.allocateTranche_failsBy`**: units within reach have a tranche.
-/

namespace Custody

open Custody.Calendar Custody.Answered

variable {fails : Failure → Prop}

/-! ## Expiry without adjustments -/

/-- Without adjustments the unit expires within reach. -/
def UnitCalculation.ExpiresInReach (c : UnitCalculation) : Prop :=
  ∀ kind : DateKind, kind.IsExpiry → ∀ b, c.breakdowns.get? kind = some b →
    0 ≤ b.unadjustedDate.day ∧ b.unadjustedDate.day ≤ 20000000

/-- **Without adjustments a unit within reach expires within reach.** -/
theorem UnitCalculation.AllReckoned.expiresInReach {config : Config} {returned : Option Date}
    {s : Sentence} {c : UnitCalculation} (h : c.AllReckoned config returned s c)
    (hreach : c.InReach) : c.ExpiresInReach := by
  intro kind hkind b hb
  have hlast := (Breakdown.lastDays_of_inclusive ((h kind b hb).expiry_eq_ok hkind)).1
  have hsentenced := hreach.sentencedAt
  have hdays := hreach.expiryDays
  have hday := Date.day_of_lastDay (fits64_iff.mpr ⟨by omega, by omega⟩) hlast
  omega

/-! ## From units to the booking -/

namespace UnitCalculation

variable {c : UnitCalculation} {d : Date}

theorem unadjustedExpiryDate?_eq (c : UnitCalculation) :
    c.unadjustedExpiryDate? = (c.breakdownAmong? [.sled, .sed]).map Breakdown.unadjustedDate := by
  rw [unadjustedExpiryDate?, breakdownAmong?, List.findSome?_cons, List.findSome?_singleton]
  cases c.breakdowns.get? .sled <;> rfl

theorem ExpiresInReach.day_bounds (h : c.ExpiresInReach) (hd : c.unadjustedExpiryDate? = some d) :
    0 ≤ d.day ∧ d.day ≤ 20000000 := by
  rw [unadjustedExpiryDate?_eq, Option.map_eq_some_iff] at hd
  obtain ⟨b, hb, rfl⟩ := hd
  obtain ⟨kind, hkind, hb⟩ := List.exists_of_findSome?_eq_some hb
  exact h kind (by simpa [DateKind.IsExpiry] using hkind) b hb

end UnitCalculation

namespace Outcome

/-- **Units that expire within reach come to an outcome.** -/
theorem ofUnits_failsBy {units : List UnitCalculation} (hne : units ≠ [])
    (hstep : ∀ c ∈ units, c.InStep) (hexpires : ∀ c ∈ units, c.dateAmong? [.sled, .sed] ≠ none)
    (hreach : ∀ c ∈ units, c.ExpiresInReach) : FailsBy fails (ofUnits units) := by
  obtain ⟨c, hc⟩ := List.exists_mem_of_ne_nil units hne
  have hearliest : (units.map UnitCalculation.sentencedAt).min? ≠ none := by
    rw [Ne, List.min?_eq_none_iff, List.map_eq_nil_iff]
    exact hne
  have hexpiry : latest? [.sled, .sed] units ≠ none := by
    rw [Ne, latest?_eq_none_iff hstep]
    intro hnone
    exact hexpires c hc (hnone c hc)
  have hesed : (units.filterMap UnitCalculation.unadjustedExpiryDate?).max? ≠ none := by
    rw [Ne, List.max?_eq_none_iff, List.filterMap_eq_nil_iff]
    intro hnone
    have hunit := hnone c hc
    rw [UnitCalculation.unadjustedExpiryDate?_eq, Option.map_eq_none_iff] at hunit
    refine hexpires c hc ?_
    rw [← (hstep c hc).map_breakdownAmong?, hunit, Option.map_none]
  simp only [ofUnits, failsBy_bind, failsBy_orFail, hearliest, hexpiry, hesed, false_implies,
    failsBy_pure, orFail_eq_ok, implies_true, and_true, true_and]
  intro _ _ _ _ esed hmax
  -- the date is that of a unit, and the day after is reckoned from it
  obtain ⟨c, hc, hunit⟩ := List.mem_filterMap.mp (List.max?_mem hmax)
  have hbounds := (hreach c hc).day_bounds hunit
  exact Date.plusDays_failsBy (by omega) (by omega)

/-! ## The tranche -/

variable {config : Config}

theorem inTrancheTwo_failsBy (hconfig : config.Moderate) {unit : Sentence} (hunit : unit.InReach) :
    FailsBy fails (unit.inTrancheTwo config) := by
  simp only [Sentence.inTrancheTwo, failsBy_bind, failsBy_pure, implies_true, and_true]
  refine ⟨hunit.aggregate_failsBy, fun a ha => ?_⟩
  exact Duration.lengthInDays_years_failsBy hconfig.trancheTwoYears (hunit.aggregate_bounds ha).1

theorem trancheOf_failsBy (hconfig : config.Moderate) {units : List Sentence}
    (hunits : ∀ unit ∈ units, unit.InReach) : FailsBy fails (trancheOf config units) := by
  induction units with
  | nil => exact failsBy_ok _
  | cons unit rest ih =>
    rw [List.forall_mem_cons] at hunits
    have hrest := ih hunits.2
    simp only [trancheOf, failsBy_ite, failsBy_bind, failsBy_pure, hrest, implies_true, true_and,
      inTrancheTwo_failsBy hconfig hunits.1]
    intro _ _ _ _ tranche _
    cases tranche <;> exact failsBy_pure _

/-- **Units within reach have a tranche.** -/
theorem allocateTranche_failsBy (hconfig : config.Moderate) {units : List Sentence}
    (hunits : ∀ unit ∈ units, unit.InReach) (standard : Outcome) :
    FailsBy fails (allocateTranche config units standard) := by
  simp only [allocateTranche, failsBy_ite, failsBy_ok, implies_true, true_and]
  exact fun _ => trancheOf_failsBy hconfig hunits

end Outcome

end Custody
