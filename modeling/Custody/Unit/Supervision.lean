import Custody.Booking.Basic
import Custody.Calendar.WorkingDay
import Custody.Config.Basic
import Custody.Unit.Calculation

/-!
# Top-up supervision

An adult who is released from a short sentence is under supervision for a fixed time after release.
It ends on a working day.
-/

namespace Custody

open Custody.Calendar

namespace SupervisionTerms

/-- Whether the person is old enough at release; where the age is not known it is taken to be so. -/
def oldEnough (terms : SupervisionTerms) (offender : Offender) (release : Date) : Bool :=
  (offender.ageOn? release).all ((terms.minimumAgeAtRelease.toNat : Int) ≤ ·)

/-- Whether the date is given: on a standard determinate sentence for offences since supervision was
brought in, of a length within the limits. -/
def applies (terms : SupervisionTerms) (since : Date) (offender : Offender) (unit : Sentence)
    (c : UnitCalculation) : Answered Bool := do
  if !unit.track?.any Track.isSds then return false
  if unit.offences.any (·.committedAt < since) then return false
  let maximumDays ← (Duration.of .years terms.maximumYears).lengthInDays c.sentencedAt
  return terms.minimumDays < c.expiryDays && c.expiryDays < maximumDays
    && c.releaseDate?.any (terms.oldEnough offender)

/-- The end of supervision after release at the end of a count of days. -/
def supervisionEnd (terms : SupervisionTerms) (sentencedAt : Date) (days : Int) :
    Answered Date := do
  let release ← sentencedAt.lastDay days
  orFail (release.addMonths? terms.periodMonths.toNat) (.breach (.tusedOverflow release))

/-- The date, on a working day. Additional days that were awarded do not count. -/
def date (terms : SupervisionTerms) (holidays : List Date) (c : UnitCalculation) :
    Answered Breakdown := do
  let expiry ← terms.supervisionEnd c.sentencedAt
    (wrap64 (c.releaseDays + c.adjustments.custodyDays))
  let unadjusted ← terms.supervisionEnd c.sentencedAt c.releaseDays
  let moved ← previousWorkingDay holidays expiry
  let b := (Breakdown.of moved.date unadjusted).withRule .tusedShortLicence
  return if moved.wasMoved then b.withRuleDays .tusedWorkingDay (expiry.daysUntil moved.date) else b

end SupervisionTerms

end Custody
