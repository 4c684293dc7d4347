import Custody.Release.Breakdown
import Custody.Release.Track

/-!
# The dates of a booking

An `Outcome` holds the dates of a booking with their breakdowns, dates that are kept for comparison
only, the length from the first sentencing to the end, and the tranche of the early release scheme.

* **`Outcome.record`**, **`Outcome.remove`** keep a date and its breakdown together.
-/

namespace Custody

open Custody.Calendar

/-- What has been calculated of a booking. -/
structure Outcome where
  dates : Table DateKind Date
  breakdowns : Table DateKind Breakdown
  /-- Dates for comparison only. -/
  otherDates : Table DateKind Date
  effectiveLength : Duration
  tranche : Tranche
deriving DecidableEq

namespace Outcome

/-- An outcome without dates. -/
def empty : Outcome := ⟨Table.empty, Table.empty, Table.empty, Duration.zero, .tranche0⟩

instance : Inhabited Outcome := ⟨empty⟩

/-- The date of a kind. -/
def date? (o : Outcome) (kind : DateKind) : Option Date :=
  o.dates.get? kind

/-- The breakdown of a kind of date. -/
def breakdown? (o : Outcome) (kind : DateKind) : Option Breakdown :=
  o.breakdowns.get? kind

/-- Puts in a date with its breakdown, in place of an earlier one of its kind. -/
def record (o : Outcome) (kind : DateKind) (b : Breakdown) : Outcome :=
  { o with
    dates := o.dates.insert kind b.releaseDate
    breakdowns := o.breakdowns.insert kind b }

/-- Puts in a date if there is one. -/
def recordIfSome (o : Outcome) (kind : DateKind) (b : Option Breakdown) : Outcome :=
  match b with
  | some b => o.record kind b
  | none => o

/-- Takes out a date and its breakdown. -/
def remove (o : Outcome) (kind : DateKind) : Outcome :=
  { o with
    dates := o.dates.erase kind
    breakdowns := o.breakdowns.erase kind }

/-- Conditional release, or else automatic release. -/
def releaseDate? (o : Outcome) : Option Date :=
  (o.date? .crd).orElse fun _ => o.date? .ard

instance : JsonForm Outcome where
  toJson o := .obj <|
    Json.member "dates" o.dates
      ++ Json.member "breakdown_by_release_date_type" o.breakdowns
      ++ Json.member "other_dates" o.otherDates
      ++ Json.member "effective_sentence_length" o.effectiveLength
      ++ Json.member "sds_early_release_tranche" o.tranche
  ofJson? j := do
    let members ← j.members?
    some {
      dates := ← members.required? "dates"
      breakdowns := ← members.required? "breakdown_by_release_date_type"
      otherDates := ← members.required? "other_dates"
      effectiveLength := ← members.required? "effective_sentence_length"
      tranche := ← members.required? "sds_early_release_tranche" }

end Outcome

end Custody
