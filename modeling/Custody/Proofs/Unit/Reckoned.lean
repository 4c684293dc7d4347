import Custody.Proofs.Unit.Schemes

/-!
# How the dates of a unit are reckoned

A unit has dates of few kinds, and each kind is reckoned in one way from the counts of the unit:
expiry, release and parole at the end of a count of days, release after a recall from expiry and the
return to custody, and the date of a scheme as the scheme has it. What holds of each way to reckon a
date holds of every date of a unit.

* **`Reckoned`**: the ways in which a date is reckoned.
* **`Sentence.calculate_allReckoned`**, **`Booking.calculateUnit_allReckoned`**: there are no other
  dates, whether the unit has only those that it starts with or those of schemes as well.
-/

namespace Custody

open Custody.Calendar

variable {config : Config} {returned : Option Date} {s : Sentence} {c c' m : UnitCalculation}
variable {kind : DateKind} {b : Breakdown}

/-! ## One date -/

/-- A breakdown of a kind of date is reckoned from the counts of a unit. -/
inductive Reckoned (config : Config) (returned : Option Date) (s : Sentence)
    (c : UnitCalculation) (kind : DateKind) (b : Breakdown) : Prop
  | expiry (hkind : kind = c.expiryKind)
      (hdate : Breakdown.inclusive c.sentencedAt c.expiryDays c.adjustedExpiryDays = .ok b)
  | release (hkind : kind = c.releaseKind) (htrack : s.track? ≠ some .recall)
      (hdate : Breakdown.inclusive c.sentencedAt c.releaseDays c.adjustedReleaseDays = .ok b)
  | parole (hkind : kind = .ped) (htrack : s.track? ≠ some .recall) (days : Int)
      (hdays : c.paroleDays = some days)
      (hdate : Breakdown.inclusive c.sentencedAt days (wrap64 (days + c.adjustments.releaseDays))
        = .ok b)
  | afterRecall (hkind : kind = .prrd) (htrack : s.track? = some .recall) (expiry : Breakdown)
      (hexpiry : Breakdown.inclusive c.sentencedAt c.expiryDays c.adjustedExpiryDays = .ok expiry)
      (hdate : Sentence.releaseAfterRecall s.recallType expiry.releaseDate returned = .ok b)
  | scheme (e : Eligibility) (hkind : kind = e.kind)
      (hdate : e.date config c c.botusDaysFirst = .ok b)

namespace Reckoned

/-- Only the counts of a unit matter. -/
theorem of_undated_eq (h : Reckoned config returned s c kind b) (hsame : c'.undated = c.undated) :
    Reckoned config returned s c' kind b := by
  have hcounts : c' = { c with dates := c'.dates, breakdowns := c'.breakdowns } :=
    congrArg (fun u : UnitCalculation =>
      { u with dates := c'.dates, breakdowns := c'.breakdowns }) hsame
  rw [hcounts]
  -- no constructor looks at dates
  cases h with
  | expiry hkind hdate => exact .expiry hkind hdate
  | release hkind htrack hdate => exact .release hkind htrack hdate
  | parole hkind htrack days hdays hdate => exact .parole hkind htrack days hdays hdate
  | afterRecall hkind htrack expiry hexpiry hdate =>
    exact .afterRecall hkind htrack expiry hexpiry hdate
  | scheme e hkind hdate => exact .scheme e hkind hdate

theorem expiry_eq_ok (h : Reckoned config returned s c kind b) (hkind : kind.IsExpiry) :
    Breakdown.inclusive c.sentencedAt c.expiryDays c.adjustedExpiryDays = .ok b := by
  cases h with
  | expiry _ hdate => exact hdate
  | release hrelease =>
    exact absurd (hrelease ▸ c.releaseKind_isRelease) hkind.not_isRelease
  | parole hped => rcases hkind with hkind | hkind <;> cases hped.symm.trans hkind
  | afterRecall hprrd => rcases hkind with hkind | hkind <;> cases hprrd.symm.trans hkind
  | scheme e hscheme => exact absurd (hscheme ▸ hkind) e.kind_not.1

theorem afterRecall_eq_ok (h : Reckoned config returned s c .prrd b) :
    s.track? = some .recall ∧ ∃ expiry,
      Breakdown.inclusive c.sentencedAt c.expiryDays c.adjustedExpiryDays = .ok expiry
      ∧ Sentence.releaseAfterRecall s.recallType expiry.releaseDate returned = .ok b := by
  cases h with
  | expiry hkind => rcases c.expiryKind_isExpiry with h | h <;> cases hkind.trans h
  | release hkind => rcases c.releaseKind_isRelease with h | h <;> cases hkind.trans h
  | parole hkind => cases hkind
  | afterRecall _ htrack expiry hexpiry hdate => exact ⟨htrack, expiry, hexpiry, hdate⟩
  | scheme e hkind => rcases e with (_ | _) | _ | _ <;> cases hkind

theorem scheme_eq_ok {e : Eligibility} (h : Reckoned config returned s c e.kind b) :
    e.date config c c.botusDaysFirst = .ok b := by
  cases h with
  | expiry hkind => exact absurd (hkind ▸ c.expiryKind_isExpiry) e.kind_not.1
  | release hkind => exact absurd (hkind ▸ c.releaseKind_isRelease) e.kind_not.2
  | parole hkind => rcases e with (_ | _) | _ | _ <;> cases hkind
  | afterRecall hkind => rcases e with (_ | _) | _ | _ <;> cases hkind
  | scheme e' hkind hdate =>
    cases Eligibility.kind_injective hkind
    exact hdate

end Reckoned

/-! ## All dates -/

/-- Every date of a unit is reckoned, from counts that may be those of another. -/
def UnitCalculation.AllReckoned (config : Config) (returned : Option Date) (s : Sentence)
    (c m : UnitCalculation) : Prop :=
  ∀ kind b, c.breakdowns.get? kind = some b → Reckoned config returned s m kind b

theorem UnitCalculation.AllReckoned.record (h : c.AllReckoned config returned s m)
    (hb : Reckoned config returned s m kind b) :
    (c.record kind b).AllReckoned config returned s m := by
  intro j b' hb'
  change (c.breakdowns.insert kind b).get? j = some b' at hb'
  rw [Table.get?_insert] at hb'
  split at hb'
  · next hsame =>
    cases hb'
    exact hsame ▸ hb
  · exact h j b' hb'

/-- **Every date that a unit starts with is reckoned from its counts.** -/
theorem Sentence.calculate_allReckoned {adjustments : AppliedAdjustments}
    (h : s.calculate config adjustments returned = .ok c) :
    c.AllReckoned config returned s c := by
  obtain ⟨track, m, expiry, htrack, hmeasure, hexpiry, hc⟩ := calculate_eq_ok h
  obtain ⟨_, hm⟩ := measure_measured hmeasure
  -- before any date is recorded there is nothing to be accounted for
  have hempty : m.AllReckoned config returned s m := by
    intro kind b hb
    rw [(hm.inStep.get?_eq_none_iff kind).mp (hm.date?_eq_none kind)] at hb
    cases hb
  have hstart := hempty.record (.expiry rfl hexpiry)
  have hundated : c.undated = m.undated := by
    rcases hc with ⟨_, _, _, rfl⟩ | ⟨_, _, _, ⟨_, rfl⟩ | ⟨_, _, _, _, rfl⟩⟩ <;> rfl
  -- and each date that is recorded was reckoned in one of the ways
  have hall : c.AllReckoned config returned s m := by
    rcases hc with ⟨rfl, after, hafter, rfl⟩
      | ⟨hrecall, release, hrelease, ⟨_, rfl⟩ | ⟨days, parole, hdays, hparole, rfl⟩⟩
    · exact hstart.record (.afterRecall rfl htrack expiry hexpiry hafter)
    · have hnot : s.track? ≠ some .recall := htrack ▸ mt Option.some.inj hrecall
      exact hstart.record (.release rfl hnot hrelease)
    · have hnot : s.track? ≠ some .recall := htrack ▸ mt Option.some.inj hrecall
      rw [← hm.adjustments_eq] at hparole
      exact (hstart.record (.release rfl hnot hrelease)).record
        (.parole rfl hnot days hdays hparole)
  exact fun kind b hb => (hall kind b hb).of_undated_eq hundated

/-- **Every date of a unit is reckoned from its counts.** -/
theorem Booking.calculateUnit_allReckoned {b : Booking} {inputs : Inputs} {entry : TimelineEntry}
    (h : b.calculateUnit config inputs entry = .ok c) :
    c.AllReckoned config entry.recallAnchor entry.unit c := by
  obtain ⟨_, start, _, hstart, hinStep, hnone, hschemed⟩ := calculateUnit_eq_ok h
  intro kind found hfound
  by_cases hkind : ∀ e ∈ schemes inputs, e.kind ≠ kind
  · rw [hschemed.others kind hkind] at hfound
    exact (Sentence.calculate_allReckoned hstart kind found hfound).of_undated_eq hschemed.undated
  · simp only [not_forall, not_not] at hkind
    obtain ⟨e, he, rfl⟩ := hkind
    exact .scheme e rfl ((Eligibility.date?_eq_ok (breakdown_of_scheme h he)).2 found hfound)

end Custody
