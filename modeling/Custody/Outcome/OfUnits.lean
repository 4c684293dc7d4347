import Custody.Outcome.Basic
import Custody.Reckoning
import Custody.Unit.Calculation
import Custody.Unit.Curfew

/-!
# From units to the booking

The units of a booking run side by side. The booking has the latest date of each kind, and of
equally late ones the first. Parole and home detention curfew are put back to the release of a unit
that does not have that date itself. Dates that make no sense beside the release or expiry of the
booking are left out.

* **`Outcome.latest?`**: the latest date of some kinds.
* **`Outcome.ofUnits`**: the dates of the booking.
-/

namespace Custody

open Custody.Calendar

namespace Breakdown

/-- The breakdown of a date put back to another, by a rule that accounts for the days between. -/
def raisedTo (b : Breakdown) (date : Date) (rule : Rule) : Breakdown :=
  { b with
    adjustedDays := b.unadjustedDate.daysUntil date
    releaseDate := date }.withRuleDays rule (b.releaseDate.daysUntil date)

/-- The later of two breakdowns, the first if they have the same date. -/
def later (a b : Breakdown) : Breakdown :=
  if a.releaseDate < b.releaseDate then b else a

end Breakdown

namespace UnitCalculation

/-- The breakdown of the first of some kinds that the unit has. -/
def breakdownAmong? (kinds : List DateKind) (c : UnitCalculation) : Option Breakdown :=
  kinds.findSome? c.breakdowns.get?

end UnitCalculation

namespace Outcome

/-- The latest of a list of breakdowns, the first of those with the same date. -/
def latestOf? : List Breakdown → Option Breakdown
  | [] => none
  | b :: rest => some (rest.foldl Breakdown.later b)

/-- The latest breakdown of the units, each with the first of some kinds that it has. -/
def latest? (kinds : List DateKind) (units : List UnitCalculation) : Option Breakdown :=
  latestOf? (units.filterMap (·.breakdownAmong? kinds))

/-- The latest release of the units that do not have a kind of date. -/
def concurrentRelease? (kind : DateKind) (units : List UnitCalculation) : Option Date :=
  ((units.filter (·.date? kind |>.isNone)).filterMap (·.releaseDate?)).max?

/-- The latest breakdown of a kind, put back to the release of the units without the date. -/
def latestRaised? (kind : DateKind) (rule : Rule) (units : List UnitCalculation) :
    Option Breakdown :=
  (latest? [kind] units).map fun b =>
    match concurrentRelease? kind units with
    | some release => if b.releaseDate < release then b.raisedTo release rule else b
    | none => b

/-- The kind and breakdown of the release of the booking: on licence unless a release without
licence is later. -/
def release? (units : List UnitCalculation) : Option (DateKind × Breakdown) :=
  match latest? [.crd] units, latest? [.ard] units with
  | some crd, some ard =>
    if crd.releaseDate < ard.releaseDate then some (.ard, ard) else some (.crd, crd)
  | some crd, none => some (.crd, crd)
  | none, some ard => some (.ard, ard)
  | none, none => none

/-- Records the expiry of the booking, with the licence if it ends on the same date. -/
def recordExpiry (o : Outcome) (expiry : Breakdown) (licence : Option Breakdown) : Outcome :=
  match licence with
  | some licence =>
    if licence.releaseDate = expiry.releaseDate then o.record .sled expiry
    else (o.record .sed expiry).record .led licence
  | none => o.record .sed expiry

/-- A breakdown, if its date is before that of release, or there is no release. -/
def beforeRelease (release : Option Date) (b : Option Breakdown) : Option Breakdown :=
  b.filter fun b => release.all (b.releaseDate < ·)

/-- The dates of the booking that depend on the release and expiry of its units. -/
def ofBreakdowns (expiry : Breakdown) (units : List UnitCalculation) : Outcome :=
  let release := release? units
  let releaseDate := release.map (·.2.releaseDate)
  let o := empty.recordExpiry expiry (latest? [.sled, .led] units)
  let o := match release with
    | some (kind, b) => o.record kind b
    | none => o
  let o := o.recordIfSome .ped (latestRaised? .ped .pedConcurrentRelease units)
  let o := (Enumeration.all : List Curfew).foldl (fun o curfew =>
    o.recordIfSome curfew.kind
      (beforeRelease releaseDate (latestRaised? curfew.kind curfew.concurrentRelease units))) o
  let o := o.recordIfSome .ersed (beforeRelease releaseDate (latest? [.ersed] units))
  let o := o.recordIfSome .tused
    ((latest? [.tused] units).filter fun b => expiry.releaseDate < b.releaseDate)
  o.recordIfSome .prrd (latest? [.prrd] units)

/-- The dates of a booking of which the units have been calculated. -/
def ofUnits (units : List UnitCalculation) : Answered Outcome := do
  let earliest ← orFail (units.map UnitCalculation.sentencedAt).min? (.breach .noCalculations)
  let expiry ← orFail (latest? [.sled, .sed] units) (.breach .noExpiry)
  let o := ofBreakdowns expiry units
  let esed ← orFail (units.filterMap (·.unadjustedExpiryDate?)).max? (.breach .noUnadjustedExpiry)
  return { o with
    otherDates := o.otherDates.insert .esed esed
    effectiveLength := Duration.between earliest (← esed.plusDays 1) }

end Outcome

end Custody
