import Custody.Sentence.Aggregate
import Custody.Unit.Calculation
import Custody.Unit.ReleasePoint

/-!
# Expiry and release of a unit

A unit that is laid out along the calendar expires with its last part. It is released where the
fractions of its parts add up to, each part on its own track, or, after a recall, at licence expiry
or at the end of a fixed term.

* **`Breakdown.inclusive`** places a count of days, of which the date of sentencing is the first.
* **`Sentence.calculate`** gives the expiry and release dates of a unit.
-/

namespace Custody

open Custody.Calendar

namespace Breakdown

/-- The date at the end of a count of days, and where it would be without adjustments. A count that
is used up ends on the date it starts. -/
def inclusive (start : Date) (unadjustedDays adjustedDays : Int) : Answered Breakdown := do
  let unadjusted ← start.lastDay unadjustedDays
  let release ← start.lastDay adjustedDays
  let b := of release unadjusted
  return if adjustedDays ≤ 0 then b.withRule .immediateRelease else b

end Breakdown

namespace Sentence

/-- The days that are served of the parts, before they are rounded. -/
def servedDays (points : ReleasePoints) (parts : List Part) : Answered Decimal :=
  parts.foldlM (fun served part => do
    let track ← orFail part.track (.breach .componentNotClassified)
    let multiplier ← points.multiplierFor track
    return served + Decimal.ofInt part.custodialDays * multiplier) 0

/-- The days to release on a track: all of them after a recall. -/
def daysToRelease (points : ReleasePoints) (track : Track) (a : Aggregate) : Answered Int :=
  if track = .recall then .ok a.totalDays
  else do ceilDays (← servedDays points a.parts)

/-- The days to parole, on a track that it is considered on. -/
def daysToParole? (points : ReleasePoints) (track : Track) (a : Aggregate) :
    Answered (Option Int) :=
  match points.paroleMultiplier? track with
  | some multiplier => return some (← daysAtFraction a.custodialDays multiplier)
  | none => .ok none

/-- Whether release is on licence. Of standard determinate sentences it is on those that are long
enough, and on those for an offence since release on licence became the rule. -/
def releasedOnLicence (config : Config) (track : Track) (s : Sentence) (a : Aggregate) :
    Answered Bool :=
  match track with
  | .botus => .ok false
  | .recall | .edsAutomatic | .edsDiscretionary => .ok true
  | .sdsStandard | .sdsEarly | .sdsPlus => do
    let threshold ←
      (Duration.of .months config.releasePoints.licenceThresholdMonths).lengthInDays a.sentencedAt
    return threshold ≤ a.totalDays
      || s.offences.any (fun o => config.commencements.ora ≤ o.committedAt)

/-- Release after a recall: at licence expiry, or at the end of a fixed term from the return to
custody if that is earlier. -/
def releaseAfterRecall (type : RecallType) (licenceExpiry : Date) (returned : Option Date) :
    Answered Breakdown :=
  match type.fixedTermDays? with
  | none => .ok (Breakdown.of licenceExpiry licenceExpiry)
  | some days => do
    let returned ← orFail returned (.unsupported .fixedTermWithoutReturn)
    let release ← returned.lastDay days
    return if licenceExpiry < release then
      ((Breakdown.of licenceExpiry release).withRule .fixedTermRecall).withRuleDays
        .prrdLicenceExpiry (release.daysUntil licenceExpiry)
    else (Breakdown.of release release).withRule .fixedTermRecall

/-- The counts of days of a unit, without dates. -/
def measure (config : Config) (adjustments : AppliedAdjustments) (track : Track) (s : Sentence) :
    Answered UnitCalculation := do
  let a ← s.aggregate
  let expiryDays := a.totalDays
  let releaseDays ← daysToRelease config.releasePoints track a
  let paroleDays ← daysToParole? config.releasePoints track a
  let hasLicence ← releasedOnLicence config track s a
  let identifier ← orFail s.identifier? (.breach .noIdentifier)
  return {
    identifier
    sentencedAt := a.sentencedAt
    expiryDays
    releaseDays
    paroleDays
    botusDaysFirst := a.botusDaysFirst
    adjustments
    adjustedExpiryDays := wrap64 (expiryDays + adjustments.custodyDays)
    adjustedReleaseDays := wrap64 (releaseDays + adjustments.releaseDays)
    hasLicence
    dates := Table.empty
    breakdowns := Table.empty }

/-- The expiry and release dates of a unit that has been classified. -/
def calculate (config : Config) (adjustments : AppliedAdjustments) (returned : Option Date)
    (s : Sentence) : Answered UnitCalculation := do
  let track ← orFail s.track? (.breach .unitNotClassified)
  let c ← s.measure config adjustments track
  let expiry ← Breakdown.inclusive c.sentencedAt c.expiryDays c.adjustedExpiryDays
  let c := c.record (if c.hasLicence then .sled else .sed) expiry
  if track = .recall then
    return c.record .prrd (← releaseAfterRecall s.recallType expiry.releaseDate returned)
  let release ← Breakdown.inclusive c.sentencedAt c.releaseDays c.adjustedReleaseDays
  let c := c.record (if c.hasLicence then .crd else .ard) release
  match c.paroleDays with
  | some days =>
    return c.record .ped
      (← Breakdown.inclusive c.sentencedAt days (wrap64 (days + adjustments.releaseDays)))
  | none => return c

end Sentence

end Custody
