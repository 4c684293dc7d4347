import Custody.Outcome.EarlyRelease
import Custody.Outcome.OfUnits
import Custody.Proofs.Release.InStep

/-!
# Dates that are explained

A breakdown is consistent when its days add up, and when no rule is listed twice and only rules that
are listed have contributed days. Dates are explained when they are in step with their breakdowns
and each of these is consistent. The end of the sentence before adjustments is kept for comparison
and never among them.

* **`Breakdown.Consistent`**: it holds of `Breakdown.of`, and whatever lists a rule keeps it.
* **`Explained.insert`**: a date that is put in with a consistent breakdown is explained.
* **`UnitCalculation.Explained`**, **`Outcome.Explained`**: the dates of a unit and of a booking.
-/

namespace Custody

open Custody.Calendar

/-! ## Breakdowns -/

namespace Breakdown

/-- The days of a breakdown add up to its date, and its rules are those that contributed. -/
structure Consistent (b : Breakdown) : Prop where
  adjustedDays : b.adjustedDays = b.unadjustedDate.daysUntil b.releaseDate
  nodup : b.rules.Nodup
  listed : ∀ rule, b.ruleAdjustments.get? rule ≠ none → rule ∈ b.rules

theorem consistent_of (release unadjusted : Date) : (of release unadjusted).Consistent where
  adjustedDays := rfl
  nodup := List.nodup_nil
  listed _ h := absurd rfl h

theorem mem_rules_withRule (b : Breakdown) (rule : Rule) : rule ∈ (b.withRule rule).rules := by
  unfold withRule
  split
  · assumption
  · exact List.mem_append_right b.rules (List.mem_singleton.mpr rfl)

theorem Consistent.withRule {b : Breakdown} (h : b.Consistent) (rule : Rule) :
    (b.withRule rule).Consistent := by
  unfold Breakdown.withRule
  -- a rule is listed once, however often it applies
  split
  · exact h
  · next hnotMem =>
    have hne : ∀ r ∈ b.rules, ∀ r' ∈ [rule], r ≠ r' :=
      fun r hr r' hr' heq => hnotMem (List.mem_singleton.mp hr' ▸ heq ▸ hr)
    exact {
      adjustedDays := h.adjustedDays
      nodup := List.nodup_append.mpr ⟨h.nodup, List.pairwise_singleton _ rule, hne⟩
      listed := fun r hr => List.mem_append_left _ (h.listed r hr) }

/-- The rule is listed before its days are, so days never stand without it. -/
theorem Consistent.withRuleDays {b : Breakdown} (h : b.Consistent) (rule : Rule) (days : Int) :
    (b.withRuleDays rule days).Consistent where
  adjustedDays := (h.withRule rule).adjustedDays
  nodup := (h.withRule rule).nodup
  listed r hr := by
    change ((b.withRule rule).ruleAdjustments.insert rule days).get? r ≠ none at hr
    rw [Table.get?_insert] at hr
    split at hr
    · next heq => exact heq ▸ b.mem_rules_withRule rule
    · exact (h.withRule rule).listed r hr

/-- A date that is put back is counted anew from what it would be without adjustments. -/
theorem Consistent.raisedTo {b : Breakdown} (h : b.Consistent) (date : Date) (rule : Rule) :
    (b.raisedTo date rule).Consistent :=
  Consistent.withRuleDays
    (b := { b with adjustedDays := b.unadjustedDate.daysUntil date, releaseDate := date })
    ⟨rfl, h.nodup, h.listed⟩ rule _

theorem consistent_heldUntil (commencement unadjusted : Date) :
    (Outcome.heldUntil commencement unadjusted).Consistent :=
  (consistent_of commencement unadjusted).withRule .trancheCommencement

end Breakdown

/-! ## Tables -/

/-- Dates are explained by their breakdowns. -/
structure Explained (dates : Table DateKind Date) (breakdowns : Table DateKind Breakdown) :
    Prop where
  /-- Each kind has a date exactly when it has a breakdown, which is of that date. -/
  inStep : InStep dates breakdowns
  consistent : ∀ kind b, breakdowns.get? kind = some b → b.Consistent
  /-- The date that is kept for comparison is not among them. -/
  esed : dates.get? .esed = none

namespace Explained

variable {dates : Table DateKind Date} {breakdowns : Table DateKind Breakdown}

theorem empty : Explained Table.empty Table.empty where
  inStep := InStep.empty
  consistent _ _ h := by cases h
  esed := rfl

theorem insert (h : Explained dates breakdowns) {kind : DateKind} (hkind : kind ≠ .esed)
    {b : Breakdown} (hb : b.Consistent) :
    Explained (dates.insert kind b.releaseDate) (breakdowns.insert kind b) where
  inStep := h.inStep.insert kind b
  consistent j b' hfound := by
    rw [Table.get?_insert] at hfound
    split at hfound
    · cases hfound
      exact hb
    · exact h.consistent j b' hfound
  esed := by rw [Table.get?_insert, if_neg (Ne.symm hkind), h.esed]

end Explained

/-! ## The dates of a unit -/

namespace UnitCalculation

/-- The dates of a unit are explained. -/
def Explained (c : UnitCalculation) : Prop := Custody.Explained c.dates c.breakdowns

theorem Explained.record {c : UnitCalculation} (h : c.Explained) {kind : DateKind}
    (hkind : kind ≠ .esed) {b : Breakdown} (hb : b.Consistent) : (c.record kind b).Explained :=
  Custody.Explained.insert h hkind hb

end UnitCalculation

/-! ## The dates of a booking -/

namespace Outcome

/-- The dates of a booking are explained, and the only date for comparison is the end of the
sentence before adjustments. -/
structure Explained (o : Outcome) : Prop where
  dates : Custody.Explained o.dates o.breakdowns
  otherDates : ∀ kind, o.otherDates.get? kind ≠ none ↔ kind = .esed

end Outcome

end Custody
