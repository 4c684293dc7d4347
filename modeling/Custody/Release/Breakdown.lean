import Custody.Release.DateKind

/-!
# Breakdowns

A `Breakdown` explains one date: the date it would be without adjustments, the rules that applied,
in the order in which they did, and the days that some of them contributed.

* **`Breakdown.withRule`** lists a rule once, however often it applies.
-/

namespace Custody

open Custody.Calendar

/-- A rule that contributed to a date. -/
inductive Rule where
  | immediateRelease
  | hdcedBelowMidpoint
  | hdcedFromMidpoint
  | hdcedMinimumCustodialPeriod
  | hdcedConcurrentRelease
  | hdced4plusBelowMidpoint
  | hdced4plusFromMidpoint
  | hdced4plusMinimumCustodialPeriod
  | hdced4plusConcurrentRelease
  | botusServedFirst
  | ersedMaximumPeriod
  | ersedMinimumFraction
  | ersedNotBeforeSentence
  | tusedShortLicence
  | tusedWorkingDay
  | pedConcurrentRelease
  | fixedTermRecall
  | prrdLicenceExpiry
  | trancheCommencement
deriving DecidableEq

instance : Enumeration Rule where
  all := [.immediateRelease, .hdcedBelowMidpoint, .hdcedFromMidpoint, .hdcedMinimumCustodialPeriod,
    .hdcedConcurrentRelease, .hdced4plusBelowMidpoint, .hdced4plusFromMidpoint,
    .hdced4plusMinimumCustodialPeriod, .hdced4plusConcurrentRelease, .botusServedFirst,
    .ersedMaximumPeriod, .ersedMinimumFraction, .ersedNotBeforeSentence, .tusedShortLicence,
    .tusedWorkingDay, .pedConcurrentRelease, .fixedTermRecall, .prrdLicenceExpiry,
    .trancheCommencement]
  name
    | .immediateRelease => "immediate_release"
    | .hdcedBelowMidpoint => "hdced_ge_min_period_lt_midpoint"
    | .hdcedFromMidpoint => "hdced_ge_midpoint_lt_max_period"
    | .hdcedMinimumCustodialPeriod => "hdced_minimum_custodial_period"
    | .hdcedConcurrentRelease => "hdced_adjusted_to_concurrent_conditional_release"
    | .hdced4plusBelowMidpoint => "hdced4plus_ge_min_period_lt_midpoint"
    | .hdced4plusFromMidpoint => "hdced4plus_ge_midpoint_lt_max_period"
    | .hdced4plusMinimumCustodialPeriod => "hdced4plus_minimum_custodial_period"
    | .hdced4plusConcurrentRelease => "hdced4plus_adjusted_to_concurrent_conditional_release"
    | .botusServedFirst => "consecutive_to_botus_extra_days"
    | .ersedMaximumPeriod => "ersed_max_period"
    | .ersedMinimumFraction => "ersed_min_effective_date"
    | .ersedNotBeforeSentence => "ersed_adjusted_to_sentence_date"
    | .tusedShortLicence => "tused_licence_period_lt_2y"
    | .tusedWorkingDay => "tused_adjusted_to_previous_working_day"
    | .pedConcurrentRelease => "ped_adjusted_to_concurrent_conditional_release"
    | .fixedTermRecall => "fixed_term_recall"
    | .prrdLicenceExpiry => "prrd_capped_at_licence_expiry"
    | .trancheCommencement => "sds_early_release_adjusted_to_tranche_commencement"
  mem_all k := by cases k <;> decide
  nodup_all := by decide
  name_injective {a b} := by cases a <;> cases b <;> simp

/-- How a date came about. -/
structure Breakdown where
  rules : List Rule
  ruleAdjustments : Table Rule Int
  adjustedDays : Int
  releaseDate : Date
  unadjustedDate : Date
deriving DecidableEq

namespace Breakdown

/-- A breakdown to which no rule has contributed yet. -/
def of (release unadjusted : Date) : Breakdown where
  rules := []
  ruleAdjustments := Table.empty
  adjustedDays := unadjusted.daysUntil release
  releaseDate := release
  unadjustedDate := unadjusted

/-- Lists a rule after those that are there, unless it is one of them. -/
def withRule (b : Breakdown) (rule : Rule) : Breakdown :=
  if rule ∈ b.rules then b else { b with rules := b.rules ++ [rule] }

/-- Lists a rule and the days it contributed. -/
def withRuleDays (b : Breakdown) (rule : Rule) (days : Int) : Breakdown :=
  let b := b.withRule rule
  { b with ruleAdjustments := b.ruleAdjustments.insert rule days }

instance : JsonForm Breakdown where
  toJson b := .obj <|
    Json.member "rules" b.rules
      ++ (if b.ruleAdjustments.isEmpty then []
        else Json.member "rule_adjustments" b.ruleAdjustments)
      ++ Json.member "adjusted_days" b.adjustedDays
      ++ Json.member "release_date" b.releaseDate
      ++ Json.member "unadjusted_date" b.unadjustedDate
  ofJson? j := do
    let members ← j.members?
    some {
      rules := ← members.required? "rules"
      ruleAdjustments := ← members.withDefault? "rule_adjustments" Table.empty
      adjustedDays := ← members.required? "adjusted_days"
      releaseDate := ← members.required? "release_date"
      unadjustedDate := ← members.required? "unadjusted_date" }

end Breakdown

end Custody
