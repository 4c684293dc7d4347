import Custody.Booking.Adjustments
import Custody.Identifier
import Custody.Release.Breakdown

/-!
# The calculation of a unit

A unit is a sentence that is served as a whole, single or a chain. Its calculation holds the counts
of days that its dates follow from, and the dates that have been calculated, each with its
breakdown.

* **`UnitCalculation.record`** is the one way in which a date is put in.
-/

namespace Custody

open Custody.Calendar

/-- What has been calculated of a unit. -/
structure UnitCalculation where
  identifier : Identifier
  sentencedAt : Date
  expiryDays : Int
  releaseDays : Int
  /-- For units that parole can be considered for. -/
  paroleDays : Option Int
  /-- The days of committals that are served before the standard determinate sentences. -/
  botusDaysFirst : Int
  adjustments : AppliedAdjustments
  adjustedExpiryDays : Int
  adjustedReleaseDays : Int
  hasLicence : Bool
  dates : Table DateKind Date
  breakdowns : Table DateKind Breakdown
deriving DecidableEq

namespace UnitCalculation

/-- Puts in a date with its breakdown, in place of an earlier one of its kind. -/
def record (c : UnitCalculation) (kind : DateKind) (b : Breakdown) : UnitCalculation :=
  { c with
    dates := c.dates.insert kind b.releaseDate
    breakdowns := c.breakdowns.insert kind b }

/-- The date of a kind. -/
def date? (c : UnitCalculation) (kind : DateKind) : Option Date :=
  c.dates.get? kind

/-- Conditional release, or else automatic release. -/
def releaseDate? (c : UnitCalculation) : Option Date :=
  (c.date? .crd).orElse fun _ => c.date? .ard

/-- Release, or else release after the recall. -/
def actualReleaseDate? (c : UnitCalculation) : Option Date :=
  c.releaseDate?.orElse fun _ => c.date? .prrd

/-- Where the sentence expires. -/
def expiryDate? (c : UnitCalculation) : Option Date :=
  (c.date? .sled).orElse fun _ => c.date? .sed

/-- Where the licence expires. -/
def licenceExpiryDate? (c : UnitCalculation) : Option Date :=
  (c.date? .sled).orElse fun _ => c.date? .led

/-- Where the sentence would expire without adjustments. -/
def unadjustedExpiryDate? (c : UnitCalculation) : Option Date :=
  ((c.breakdowns.get? .sled).orElse fun _ => c.breakdowns.get? .sed).map Breakdown.unadjustedDate

instance : JsonForm UnitCalculation where
  toJson c := .obj <|
    Json.member "identifier" c.identifier
      ++ Json.member "sentenced_at" c.sentencedAt
      ++ Json.member "number_of_days_to_sentence_expiry" c.expiryDays
      ++ Json.member "number_of_days_to_determinate_release" c.releaseDays
      ++ Json.member "number_of_days_to_parole_eligibility" c.paroleDays
      ++ Json.member "extra_days_for_sds_consecutive_to_botus" c.botusDaysFirst
      ++ Json.member "adjustments" c.adjustments
      ++ Json.member "adjusted_days_to_sentence_expiry" c.adjustedExpiryDays
      ++ Json.member "adjusted_days_to_determinate_release" c.adjustedReleaseDays
      ++ Json.member "has_licence" c.hasLicence
      ++ Json.member "dates" c.dates
      ++ Json.member "breakdown_by_release_date_type" c.breakdowns
  ofJson? j := do
    let members ← j.members?
    some {
      identifier := ← members.required? "identifier"
      sentencedAt := ← members.required? "sentenced_at"
      expiryDays := ← members.required? "number_of_days_to_sentence_expiry"
      releaseDays := ← members.required? "number_of_days_to_determinate_release"
      paroleDays := ← members.optional? "number_of_days_to_parole_eligibility"
      botusDaysFirst := ← members.required? "extra_days_for_sds_consecutive_to_botus"
      adjustments := ← members.required? "adjustments"
      adjustedExpiryDays := ← members.required? "adjusted_days_to_sentence_expiry"
      adjustedReleaseDays := ← members.required? "adjusted_days_to_determinate_release"
      hasLicence := ← members.required? "has_licence"
      dates := ← members.required? "dates"
      breakdowns := ← members.required? "breakdown_by_release_date_type" }

end UnitCalculation

end Custody
