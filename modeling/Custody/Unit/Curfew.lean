import Custody.Booking.Basic
import Custody.Reckoning
import Custody.Unit.Calculation
import Custody.Unit.ReleasePoint

/-!
# Home detention curfew

Before release a person may be held at home. Short of the midpoint the date is a quarter of the
sentence after sentencing, from the midpoint on a fixed number of days before release, and never
before a minimum has been served. Committals that are served first do not count, and put the date
back by their length. There are two variants, for sentences below and from four years, with terms of
their own.

* **`CurfewTerms.applies`**, **`CurfewTerms.date`**: who is given the date, and when it is.
-/

namespace Custody

open Custody.Calendar

/-- A variant of home detention curfew. -/
inductive Curfew where
  | hdced
  | hdced4plus
deriving DecidableEq

instance : Enumeration Curfew where
  all := [.hdced, .hdced4plus]
  name
    | .hdced => "hdced"
    | .hdced4plus => "hdced4plus"
  mem_all k := by cases k <;> decide
  nodup_all := by decide
  name_injective {a b} := by cases a <;> cases b <;> simp

namespace Curfew

/-- The date that a variant gives. -/
def kind : Curfew → DateKind
  | hdced => .hdced
  | hdced4plus => .hdced4plus

/-- The terms of a variant. -/
def terms (config : Config) : Curfew → CurfewTerms
  | hdced => config.hdced
  | hdced4plus => config.hdced4plus

/-- The rule for a date short of the midpoint. -/
def belowMidpoint : Curfew → Rule
  | hdced => .hdcedBelowMidpoint
  | hdced4plus => .hdced4plusBelowMidpoint

/-- The rule for a date from the midpoint on. -/
def fromMidpoint : Curfew → Rule
  | hdced => .hdcedFromMidpoint
  | hdced4plus => .hdced4plusFromMidpoint

/-- The rule for a date before the minimum has been served. -/
def minimumCustodialPeriod : Curfew → Rule
  | hdced => .hdcedMinimumCustodialPeriod
  | hdced4plus => .hdced4plusMinimumCustodialPeriod

/-- The rule for a date before the release of another unit. -/
def concurrentRelease : Curfew → Rule
  | hdced => .hdcedConcurrentRelease
  | hdced4plus => .hdced4plusConcurrentRelease

end Curfew

namespace CurfewTerms

/-- Whether the tracks of the components allow the date: there is one that is not of a committal,
and all such are among those it is given on. -/
def allowsTracks (terms : CurfewTerms) (tracks : List Track) : Bool :=
  let custodial := tracks.filter (· ≠ .botus)
  !custodial.isEmpty && custodial.all (terms.tracks.contains ·)
    && !(terms.excludesSdsPlusChains && tracks.contains .sdsPlus)

/-- Whether a length of so many days from a date is within the limits. -/
def allowsLength (terms : CurfewTerms) (sentencedAt : Date) (days : Int) : Answered Bool := do
  if days < terms.minimumDays then return false
  if let some years := terms.minimumYears then
    if days < (← (Duration.of .years years).lengthInDays sentencedAt) then return false
  if let some years := terms.maximumYears then
    if (← (Duration.of .years years).lengthInDays sentencedAt) ≤ days then return false
  return true

/-- Whether the date is given. It is not after a recall, nor to an active sex offender. -/
def applies (terms : CurfewTerms) (offender : Offender) (unit : Sentence) (c : UnitCalculation) :
    Answered Bool :=
  if offender.isActiveSexOffender || unit.recallType.isRecall then .ok false
  else if !terms.allowsTracks unit.componentTracks then .ok false
  else terms.allowsLength c.sentencedAt (wrap64 (c.expiryDays - c.botusDaysFirst))

/-- The fraction of a sentence that is served before the date, short of the midpoint. -/
def quarter : Decimal := ⟨25, 2⟩

/-- The date, and what it would be without adjustments, for a unit of which `botusDays` are served
first. -/
def undelayed (terms : CurfewTerms) (curfew : Curfew) (c : UnitCalculation) (botusDays : Int) :
    Answered (Date × Date × Rule) := do
  let custodyDays := c.adjustments.custodyDays
  let servedDays := wrap64 (c.releaseDays - botusDays)
  if servedDays < terms.midpointDays then
    let quarterDays ← daysAtFraction (wrap64 (c.expiryDays - botusDays)) quarter
    let days := max quarterDays terms.minimumEligibilityDays
    return (← c.sentencedAt.plusDays (wrap64 (days + custodyDays)), ← c.sentencedAt.plusDays days,
      curfew.belowMidpoint)
  else
    let release ← c.sentencedAt.lastDay (wrap64 (servedDays + custodyDays))
    let unadjustedRelease ← c.sentencedAt.lastDay servedDays
    let beforeDays := wrap64 (-terms.deductionDays)
    return (← release.plusDays beforeDays, ← unadjustedRelease.plusDays beforeDays,
      curfew.fromMidpoint)

/-- A date put back by the committals that are served first. -/
def afterBotus (date : Date) (botusDays : Int) : Answered Date :=
  if 0 < botusDays then date.plusDays botusDays else .ok date

/-- The date, not before the minimum has been served, and after the committals that are served
first. -/
def date (terms : CurfewTerms) (curfew : Curfew) (c : UnitCalculation) (botusDays : Int) :
    Answered Breakdown := do
  let (date, unadjusted, rule) ← terms.undelayed curfew c botusDays
  let earliest ← c.sentencedAt.plusDays terms.minimumCustodialDays
  let release ← afterBotus (max date earliest) botusDays
  let unadjustedRelease ← afterBotus unadjusted botusDays
  let b := (Breakdown.of release unadjustedRelease).withRule rule
  let b := if date < earliest then
      b.withRuleDays curfew.minimumCustodialPeriod (date.daysUntil earliest)
    else b
  return if 0 < botusDays then b.withRuleDays .botusServedFirst botusDays else b

end CurfewTerms

end Custody
