import Custody.Config.Basic

/-!
# Settings that can be used

A configuration is checked once, when it is loaded, for settings that no calculation could use. The
first fault in the order of the parts is reported.
-/

namespace Custody

open Custody.Calendar

namespace Config

/-- Refuses with a fault unless a condition holds. -/
def demand (condition : Bool) (fault : ConfigFault) : Answered Unit :=
  if condition then .ok () else .error (.invalidConfig fault)

/-- A fraction is above zero and at most one. -/
def checkFraction (setting : String) (value : Decimal) : Answered Unit :=
  demand (!decide (value ≤ 0) && decide (value ≤ 1)) (.notAFraction setting value)

/-- Every track has a multiplier. -/
def checkMultiplier (points : ReleasePoints) (track : Track) : Answered Unit := do
  let value ← orFail (points.multipliers.get? track) (.multiplierMissing track)
  checkFraction s!"release point multiplier for {track}" value

/-- The multipliers are fractions. -/
def checkReleasePoints (points : ReleasePoints) : Answered Unit := do
  (Enumeration.all : List Track).forM (checkMultiplier points)
  points.paroleMultipliers.toList.forM fun (track, value) =>
    checkFraction s!"parole eligibility multiplier for {track}" value

/-- A variant of home detention curfew is for some track and some length of sentence. -/
def checkCurfew (scheme : String) (terms : CurfewTerms) : Answered Unit := do
  demand (!terms.tracks.isEmpty) (.noTracks scheme)
  demand (0 ≤ terms.minimumCustodialDays && 0 ≤ terms.minimumEligibilityDays)
    (.negativePeriod scheme)
  match terms.minimumYears, terms.maximumYears with
  | some minimum, some maximum =>
    demand (minimum < maximum) (.emptyYearRange scheme minimum maximum)
  | _, _ => .ok ()

/-- There are fractions of the early removal scheme. -/
def checkRemoval (terms : RemovalTerms) : Answered Unit := do
  demand (!terms.fractions.isEmpty) .noFractions
  terms.fractions.forM fun entry =>
    checkFraction s!"ersed fraction from {entry.effectiveFrom}" entry.fraction

/-- The tranches of the early release scheme start one after the other. -/
def checkEarlyRelease (terms : EarlyReleaseTerms) : Answered Unit :=
  demand (terms.trancheOneCommencement < terms.trancheTwoCommencement)
    (.tranchesOutOfOrder terms.trancheOneCommencement terms.trancheTwoCommencement)

/-- The settings can be used. -/
def check (c : Config) : Answered Unit := do
  checkReleasePoints c.releasePoints
  checkCurfew "hdced" c.hdced
  checkCurfew "hdced4plus" c.hdced4plus
  checkRemoval c.ersed
  checkEarlyRelease c.earlyRelease

end Config

end Custody
