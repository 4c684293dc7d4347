import Custody.Proofs.Release.Explained
import Custody.Proofs.Unit.Schemes

/-!
# The dates of a unit are explained

A unit starts with a date of expiry and one of release, on licence or not, and the schemes add dates
of their own. Each of them is recorded together with a breakdown that was built up rule by rule.

* **`Eligibility.date_consistent`**: the breakdown of each scheme.
* **`Booking.calculateUnit_explained`**: the dates of a unit.
-/

namespace Custody

open Custody.Calendar

/-! ## The breakdowns of a unit -/

theorem Breakdown.inclusive_consistent {start : Date} {unadjustedDays adjustedDays : Int}
    {b : Breakdown} (h : Breakdown.inclusive start unadjustedDays adjustedDays = .ok b) :
    b.Consistent := by
  simp only [inclusive, Answered.bind_eq_ok, Answered.pure_eq_ok] at h
  obtain ⟨unadjusted, _, release, _, rfl⟩ := h
  have hstart := consistent_of release unadjusted
  split
  · exact hstart.withRule .immediateRelease
  · exact hstart

theorem Sentence.releaseAfterRecall_consistent {type : RecallType} {licenceExpiry : Date}
    {returned : Option Date} {b : Breakdown}
    (h : releaseAfterRecall type licenceExpiry returned = .ok b) : b.Consistent := by
  unfold releaseAfterRecall at h
  split at h
  · cases h
    exact Breakdown.consistent_of licenceExpiry licenceExpiry
  · simp only [Answered.bind_eq_ok, Answered.pure_eq_ok] at h
    obtain ⟨_, _, release, _, rfl⟩ := h
    split
    · exact ((Breakdown.consistent_of licenceExpiry release).withRule _).withRuleDays _ _
    · exact (Breakdown.consistent_of release release).withRule _

theorem CurfewTerms.date_consistent {terms : CurfewTerms} {curfew : Curfew} {c : UnitCalculation}
    {botusDays : Int} {b : Breakdown} (h : terms.date curfew c botusDays = .ok b) :
    b.Consistent := by
  simp only [date, Answered.bind_eq_ok, Answered.pure_eq_ok] at h
  obtain ⟨⟨date, unadjusted, rule⟩, _, earliest, _, release, _, unadjustedRelease, _, rfl⟩ := h
  have hstart := (Breakdown.consistent_of release unadjustedRelease).withRule rule
  -- the minimum and the committals may each list a rule of their own
  have hminimum : (if date < earliest then
      ((Breakdown.of release unadjustedRelease).withRule rule).withRuleDays
        curfew.minimumCustodialPeriod (date.daysUntil earliest)
      else (Breakdown.of release unadjustedRelease).withRule rule).Consistent := by
    split
    · exact hstart.withRuleDays _ _
    · exact hstart
  split
  · exact hminimum.withRuleDays _ _
  · exact hminimum

theorem RemovalTerms.date_consistent {terms : RemovalTerms} {c : UnitCalculation} {b : Breakdown}
    (h : terms.date c = .ok b) : b.Consistent := by
  simp only [date, Answered.bind_eq_ok, Answered.pure_eq_ok] at h
  obtain ⟨⟨date, unadjusted, rule⟩, _, rfl⟩ := h
  have hstart := (Breakdown.consistent_of (max date c.sentencedAt) unadjusted).withRule rule
  split
  · exact hstart.withRuleDays _ _
  · exact hstart

theorem SupervisionTerms.date_consistent {terms : SupervisionTerms} {holidays : List Date}
    {c : UnitCalculation} {b : Breakdown} (h : terms.date holidays c = .ok b) : b.Consistent := by
  simp only [date, Answered.bind_eq_ok, Answered.pure_eq_ok] at h
  obtain ⟨expiry, _, unadjusted, _, moved, _, rfl⟩ := h
  have hstart := (Breakdown.consistent_of moved.date unadjusted).withRule .tusedShortLicence
  split
  · exact hstart.withRuleDays _ _
  · exact hstart

variable {config : Config} {offender : Offender} {unit : Sentence} {c c' : UnitCalculation}

/-- **The breakdown of each scheme is consistent.** -/
theorem Eligibility.date_consistent {botusDays : Int} {e : Eligibility} {b : Breakdown}
    (h : e.date config c botusDays = .ok b) : b.Consistent := by
  cases e with
  | curfew variant => exact CurfewTerms.date_consistent h
  | removal => exact RemovalTerms.date_consistent h
  | supervision => exact SupervisionTerms.date_consistent h

/-! ## The dates of a unit -/

theorem UnitCalculation.expiryKind_ne_esed (c : UnitCalculation) : c.expiryKind ≠ .esed := by
  rcases c.expiryKind_isExpiry with h | h <;> rw [h] <;> decide

theorem UnitCalculation.releaseKind_ne_esed (c : UnitCalculation) : c.releaseKind ≠ .esed := by
  rcases c.releaseKind_isRelease with h | h <;> rw [h] <;> decide

theorem Eligibility.kind_ne_esed (e : Eligibility) : e.kind ≠ .esed := by
  rcases e with (_ | _) | _ | _ <;> decide

namespace Sentence

theorem measure_explained {adjustments : AppliedAdjustments} {track : Track} {s : Sentence}
    (h : s.measure config adjustments track = .ok c) : c.Explained := by
  simp only [measure, Answered.bind_eq_ok, Answered.pure_eq_ok] at h
  obtain ⟨_, _, _, _, _, _, _, _, _, _, rfl⟩ := h
  exact Explained.empty

/-- The dates that a unit starts with are explained. -/
theorem calculate_explained {adjustments : AppliedAdjustments} {returned : Option Date}
    {s : Sentence} (h : s.calculate config adjustments returned = .ok c) : c.Explained := by
  obtain ⟨_, m, expiry, _, hmeasure, hexpiry, hc⟩ := calculate_eq_ok h
  have hstart := (measure_explained hmeasure).record m.expiryKind_ne_esed
    (Breakdown.inclusive_consistent hexpiry)
  rcases hc with ⟨_, after, hafter, rfl⟩
    | ⟨_, release, hrelease, ⟨_, rfl⟩ | ⟨_, parole, _, hparole, rfl⟩⟩
  · exact hstart.record (by decide) (releaseAfterRecall_consistent hafter)
  · exact hstart.record m.releaseKind_ne_esed (Breakdown.inclusive_consistent hrelease)
  · exact (hstart.record m.releaseKind_ne_esed (Breakdown.inclusive_consistent hrelease)).record
      (by decide) (Breakdown.inclusive_consistent hparole)

end Sentence

/-- A scheme that records a date records an explained one. -/
theorem Eligibility.apply_explained (h : c.Explained) {e : Eligibility} {r : UnitCalculation × Bool}
    (happly : e.apply config offender unit c = .ok r) : r.1.Explained := by
  obtain ⟨found, hfound, rfl⟩ := apply_eq_ok_iff.mp happly
  cases found with
  | none => exact h
  | some b => exact h.record e.kind_ne_esed (date_consistent ((date?_eq_ok hfound).2 b rfl))

namespace Booking

theorem recordSchemes_explained {schemes : List Eligibility} (hc : c.Explained)
    (h : recordSchemes config offender unit c schemes = .ok c') : c'.Explained := by
  refine Answered.foldlM_preserves (fun e _ c c' hc h => ?_) hc h
  simp only [Answered.bind_eq_ok, Answered.pure_eq_ok] at h
  obtain ⟨r, hr, rfl⟩ := h
  exact Eligibility.apply_explained hc hr

/-- **The dates of a unit are explained.** -/
theorem calculateUnit_explained {inputs : Inputs} {b : Booking} {entry : TimelineEntry}
    (h : b.calculateUnit config inputs entry = .ok c) : c.Explained := by
  simp only [calculateUnit, Answered.bind_eq_ok] at h
  obtain ⟨_, _, start, hstart, h⟩ := h
  exact recordSchemes_explained (Sentence.calculate_explained hstart) h

end Booking

end Custody
