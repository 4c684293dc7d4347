import Custody.Reckoning
import Custody.Sentence.Basic
import Custody.Unit.Calculation
import Custody.Unit.ReleasePoint

/-!
# The early removal scheme

A person who is liable to removal may be removed before release, at most a number of days before it
and not before a fraction of the time to release, or to parole, has been served.
-/

namespace Custody

open Custody.Calendar

namespace RemovalTerms

/-- Whether the date is given: on any track but recall and committal, with a release date. -/
def applies (unit : Sentence) (c : UnitCalculation) : Bool :=
  unit.track?.any (fun track => track ≠ .recall && track ≠ .botus) && c.releaseDate?.isSome

/-- The date, and what it would be without adjustments. The first day counts, so day `n` is `n - 1`
days after sentencing. -/
def unlimited (terms : RemovalTerms) (c : UnitCalculation) : Answered (Date × Date × Rule) := do
  let anchorDays := c.paroleDays.getD c.releaseDays
  let releaseDays := c.adjustments.releaseDays
  let fraction ← orFail (terms.fractionOn? c.sentencedAt)
    (.invalidConfig (.noFractionOn c.sentencedAt))
  let minimumDays ← daysAtFraction anchorDays fraction
  let (days, rule) := if minimumDays ≤ wrap64 (anchorDays - terms.maximumDays) then
      (wrap64 (anchorDays - 1 - terms.maximumDays), Rule.ersedMaximumPeriod)
    else (wrap64 (minimumDays - 1), Rule.ersedMinimumFraction)
  let date ← c.sentencedAt.plusDays (wrap64 (days + releaseDays))
  let unadjusted ← c.sentencedAt.plusDays days
  return (date, unadjusted, rule)

/-- The date, not before that of sentencing. -/
def date (terms : RemovalTerms) (c : UnitCalculation) : Answered Breakdown := do
  let (date, unadjusted, rule) ← terms.unlimited c
  let b := (Breakdown.of (max date c.sentencedAt) unadjusted).withRule rule
  return if date < c.sentencedAt then
    b.withRuleDays .ersedNotBeforeSentence (date.daysUntil c.sentencedAt)
  else b

end RemovalTerms

end Custody
