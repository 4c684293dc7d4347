import Custody.Outcome.Basic
import Custody.Unit.Calculation

/-!
# Dates in step with their breakdowns

Dates and breakdowns are kept in two tables. They are in step when each kind has a date exactly when
it has a breakdown, and the date is the one that is broken down. Whatever puts in or takes out both
at once keeps them so.

* **`DateKind.IsRelease`**, **`DateKind.IsExpiry`**, **`DateKind.IsEligibility`**: what kinds of
  date mark.
* **`InStep.insert`**, **`InStep.erase`**: the two operations on tables.
* **`UnitCalculation.InStep`**, **`Outcome.InStep`**: the dates of a unit and of a booking.
-/

namespace Custody

open Custody.Calendar

/-! ## What dates mark -/

namespace DateKind

/-- Dates of release, on licence or without. -/
def IsRelease (kind : DateKind) : Prop := kind = .crd ∨ kind = .ard

/-- Dates on which the sentence expires, with the licence or on its own. -/
def IsExpiry (kind : DateKind) : Prop := kind = .sled ∨ kind = .sed

/-- Dates from which a person may leave custody before release. -/
def IsEligibility (kind : DateKind) : Prop := kind = .hdced ∨ kind = .hdced4plus ∨ kind = .ersed

variable {kind : DateKind}

theorem IsExpiry.not_isRelease (h : kind.IsExpiry) : ¬ kind.IsRelease := by
  rintro (rfl | rfl) <;> rcases h with h | h <;> cases h

/-- Release and what comes before it depend on early release, expiry does not. -/
theorem IsRelease.mem_earlyReleaseSensitive (h : kind.IsRelease) :
    kind ∈ earlyReleaseSensitive := by
  rcases h with rfl | rfl <;> decide

theorem IsEligibility.mem_earlyReleaseSensitive (h : kind.IsEligibility) :
    kind ∈ earlyReleaseSensitive := by
  rcases h with rfl | rfl | rfl <;> decide

theorem IsExpiry.notMem_earlyReleaseSensitive (h : kind.IsExpiry) :
    kind ∉ earlyReleaseSensitive := by
  rcases h with rfl | rfl <;> decide

end DateKind

/-! ## Rules -/

namespace Breakdown

/-- Rules say how a date came about and do not move it. -/
@[simp] theorem releaseDate_withRule (b : Breakdown) (rule : Rule) :
    (b.withRule rule).releaseDate = b.releaseDate := by
  unfold withRule
  split <;> rfl

@[simp] theorem releaseDate_withRuleDays (b : Breakdown) (rule : Rule) (days : Int) :
    (b.withRuleDays rule days).releaseDate = b.releaseDate :=
  b.releaseDate_withRule rule

@[simp] theorem unadjustedDate_withRule (b : Breakdown) (rule : Rule) :
    (b.withRule rule).unadjustedDate = b.unadjustedDate := by
  unfold withRule
  split <;> rfl

@[simp] theorem unadjustedDate_withRuleDays (b : Breakdown) (rule : Rule) (days : Int) :
    (b.withRuleDays rule days).unadjustedDate = b.unadjustedDate :=
  b.unadjustedDate_withRule rule

end Breakdown

/-! ## Tables -/

/-- Each kind has a date exactly when it has a breakdown, which is of that date. -/
def InStep (dates : Table DateKind Date) (breakdowns : Table DateKind Breakdown) : Prop :=
  ∀ kind, dates.get? kind = (breakdowns.get? kind).map Breakdown.releaseDate

namespace InStep

variable {dates : Table DateKind Date} {breakdowns : Table DateKind Breakdown}

theorem get?_eq_none_iff (h : InStep dates breakdowns) (kind : DateKind) :
    dates.get? kind = none ↔ breakdowns.get? kind = none := by
  rw [h kind, Option.map_eq_none_iff]

theorem empty : InStep Table.empty Table.empty := fun _ => rfl

theorem insert (h : InStep dates breakdowns) (kind : DateKind) (b : Breakdown) :
    InStep (dates.insert kind b.releaseDate) (breakdowns.insert kind b) := by
  intro j
  rw [Table.get?_insert, Table.get?_insert]
  split
  · rfl
  · exact h j

theorem erase (h : InStep dates breakdowns) (kind : DateKind) :
    InStep (dates.erase kind) (breakdowns.erase kind) := by
  intro j
  rw [Table.get?_erase, Table.get?_erase]
  split
  · rfl
  · exact h j

end InStep

/-! ## The dates of a unit -/

namespace UnitCalculation

/-- The dates of a unit are those of their breakdowns. -/
def InStep (c : UnitCalculation) : Prop := Custody.InStep c.dates c.breakdowns

@[simp] theorem date?_record (c : UnitCalculation) (kind j : DateKind) (b : Breakdown) :
    (c.record kind b).date? j = if j = kind then some b.releaseDate else c.date? j := rfl

theorem InStep.date?_eq {c : UnitCalculation} (h : c.InStep) (kind : DateKind) :
    c.date? kind = (c.breakdowns.get? kind).map Breakdown.releaseDate :=
  h kind

theorem InStep.record {c : UnitCalculation} (h : c.InStep) (kind : DateKind) (b : Breakdown) :
    (c.record kind b).InStep :=
  Custody.InStep.insert h kind b

end UnitCalculation

/-! ## The dates of a booking -/

namespace Outcome

/-- The dates of a booking are those of their breakdowns. -/
def InStep (o : Outcome) : Prop := Custody.InStep o.dates o.breakdowns

theorem InStep.date?_eq {o : Outcome} (h : o.InStep) (kind : DateKind) :
    o.date? kind = (o.breakdown? kind).map Breakdown.releaseDate :=
  h kind

@[simp] theorem date?_empty (kind : DateKind) : empty.date? kind = none := rfl

@[simp] theorem date?_record (o : Outcome) (kind j : DateKind) (b : Breakdown) :
    (o.record kind b).date? j = if j = kind then some b.releaseDate else o.date? j := rfl

@[simp] theorem date?_recordIfSome (o : Outcome) (kind j : DateKind) (b : Option Breakdown) :
    (o.recordIfSome kind b).date? j
      = if j = kind then (b.map Breakdown.releaseDate).or (o.date? j) else o.date? j := by
  cases b with
  | none => simp [recordIfSome]
  | some b => rw [recordIfSome, date?_record, Option.map_some, Option.some_or]

theorem InStep.record {o : Outcome} (h : o.InStep) (kind : DateKind) (b : Breakdown) :
    (o.record kind b).InStep :=
  Custody.InStep.insert h kind b

theorem InStep.recordIfSome {o : Outcome} (h : o.InStep) (kind : DateKind) (b : Option Breakdown) :
    (o.recordIfSome kind b).InStep := by
  cases b with
  | none => exact h
  | some b => exact h.record kind b

end Outcome

end Custody
