import Custody.Proofs.Unit.Curfew
import Custody.Proofs.Unit.Eased
import Custody.Proofs.Unit.Reach
import Custody.Proofs.Unit.Reckoned

/-!
# Bounds of the dates of a unit

The days to release lie between none and all of the days of a unit, and so do the days to parole.
Dates are placed at the end of such a count, put back or brought forward by the same adjustments and
not moved before sentencing, so they keep the order of the counts. Removal has the date of parole as
its limit, or that of release where there is no parole, and release after a recall has expiry.

* **`Sentence.Measured.days_bounds`**: the counts of a unit.
* **`RemovalTerms.date_le_anchor`**: removal is not after what it is counted back from.
* **`UnitCalculation.WithinBounds`**, **`Booking.calculateUnit_withinBounds`**: the dates of a unit.
-/

namespace Custody

open Custody.Calendar

variable {config : Config}

/-! ## Counts -/

namespace Sentence

variable {adjustments : AppliedAdjustments} {track : Track} {s : Sentence} {a : Aggregate}
variable {m : UnitCalculation}

/-- **The counts of a unit**: release and parole are within the days of the unit. -/
theorem Measured.days_bounds (hconfig : config.Moderate)
    (hm : Measured config adjustments track s a m) :
    (0 ≤ m.releaseDays ∧ m.releaseDays ≤ m.expiryDays ∧ m.expiryDays ≤ 200000000)
      ∧ ∀ days, m.paroleDays = some days → 0 ≤ days ∧ days ≤ m.expiryDays := by
  have hlaid := aggregate_contiguous hm.aggregate
  have hrange : a.totalDays ≤ 200000000 := Date.daysUntil_le_range _ _
  have hrelease := daysToRelease_bounds hconfig.points.areFractions hlaid hm.releaseDays
  rw [hm.expiryDays]
  refine ⟨⟨hrelease.1, hrelease.2, hrange⟩, fun days hdays => ?_⟩
  have hparole := hm.paroleDays
  rw [hdays] at hparole
  have hcustody : 0 ≤ a.custodialDays := totalOf_nonneg hlaid.custodialDays_nonneg
  have htotal : a.custodialDays ≤ a.totalDays := hlaid.custodialDays_le
  -- parole is a fraction of the custodial term, which is within the whole
  unfold daysToParole? at hparole
  split at hparole
  · next multiplier hmultiplier =>
    obtain ⟨n, hn, hsome⟩ := Answered.bind_eq_ok.mp hparole
    cases hsome
    have hbounds := daysAtFraction_bounds (hconfig.parole_isShare hmultiplier) hcustody
      (by omega) hn
    omega
  · cases hparole

/-- Release on these tracks is on licence, whatever the length. -/
theorem Measured.hasLicence_of_track (hm : Measured config adjustments track s a m)
    (htrack : track = .recall ∨ track = .edsAutomatic ∨ track = .edsDiscretionary) :
    m.hasLicence = true := by
  have hlicence := hm.hasLicence
  rcases htrack with rfl | rfl | rfl <;> exact (Except.ok.inj hlicence).symm

/-- A unit that has been given days to parole is on a track of extended sentences. -/
theorem Measured.track_of_paroleDays (hparole : config.releasePoints.ParoleFirst)
    (hm : Measured config adjustments track s a m) (hdays : m.paroleDays ≠ none) :
    track = .edsAutomatic ∨ track = .edsDiscretionary := by
  have hfound := hm.paroleDays
  unfold daysToParole? at hfound
  split at hfound
  · next multiplier hmultiplier => exact hparole.isExtended track multiplier hmultiplier
  · exact absurd (Except.ok.inj hfound).symm hdays

end Sentence

/-! ## Dates on the way -/

/-- **Removal is not after what it is counted back from.** -/
theorem RemovalTerms.date_le_anchor {c : UnitCalculation} {b : Breakdown}
    (hconfig : config.Moderate) (hlow : 0 ≤ c.paroleDays.getD c.releaseDays)
    (hhigh : c.paroleDays.getD c.releaseDays ≤ 1000000000) (h : config.ersed.date c = .ok b) :
    b.releaseDate.day ≤ c.sentencedAt.day
      + max (wrap64 (c.paroleDays.getD c.releaseDays + c.adjustments.releaseDays) - 1) 0 := by
  obtain ⟨fraction, days, hfraction, hdays, hcounted, hday⟩ := date_eq_ok h
  have hbounds := daysAtFraction_bounds (hconfig.fraction_isShare hfraction) hlow hhigh hdays
  have hmaximum := hconfig.maximumDays
  generalize c.paroleDays.getD c.releaseDays = anchorDays at *
  have hle : config.ersed.countedDays anchorDays days ≤ anchorDays := by
    rw [countedDays, wrap64_of_small (by omega) (by omega)]
    omega
  -- a sum that leads to a later date in the range is not cut, nor is one that is a little greater
  have hrange := c.sentencedAt.daysUntil_bounds b.releaseDate
  obtain ⟨k, hk⟩ := wrap64_spec (anchorDays + c.adjustments.releaseDays)
  omega

/-! ## The dates of a unit -/

namespace Dated

variable {track : Track} {m c : UnitCalculation}

theorem expiryDate?_eq (h : Dated track m c) :
    ∃ x : Date, x.day = m.sentencedAt.day + max (m.adjustedExpiryDays - 1) 0
      ∧ c.expiryDate? = some x := by
  obtain ⟨x, hx, hdates⟩ := h.expiry
  refine ⟨x, hx, ?_⟩
  rw [UnitCalculation.expiryDate?, hdates .sled (.inl rfl), hdates .sed (.inr rfl)]
  rcases m.expiryKind_isExpiry with hkind | hkind <;> rw [hkind] <;> rfl

theorem day_of_releaseDate? (h : Dated track m c) {r : Date} (hr : c.releaseDate? = some r) :
    r.day = m.sentencedAt.day + max (m.adjustedReleaseDays - 1) 0 := by
  cases hcrd : c.date? .crd with
  | some d =>
    rw [h.releaseDate?_eq (.inl rfl) hcrd] at hr
    cases hr
    exact h.day_of_release (.inl rfl) hcrd
  | none =>
    rw [UnitCalculation.releaseDate?, hcrd] at hr
    exact h.day_of_release (.inr rfl) hr

end Dated

/-- The bounds of the counts and dates of a unit. Supervision is brought forward to a working day,
however far that is. -/
structure UnitCalculation.WithinBounds (c : UnitCalculation) : Prop where
  releaseDays : 0 ≤ c.releaseDays ∧ c.releaseDays ≤ c.expiryDays
  sentencedAt_le : ∀ kind, kind ≠ .tused → ∀ d, c.date? kind = some d → c.sentencedAt ≤ d
  /-- Parole is considered by the time of release on licence. -/
  parole_le : ∀ p, c.date? .ped = some p → ∃ r, c.date? .crd = some r ∧ p ≤ r
  removal_le_parole : ∀ e, c.date? .ersed = some e → ∀ p, c.date? .ped = some p → e ≤ p
  removal_le_release : ∀ e, c.date? .ersed = some e → c.date? .ped = none →
    ∃ r, c.releaseDate? = some r ∧ e ≤ r
  recall_le_expiry : ∀ p, c.date? .prrd = some p → ∃ x, c.date? .sled = some x ∧ p ≤ x
  /-- Only awarded days can put release back past expiry. -/
  release_le_expiry : c.adjustments.releaseExtensionDays = 0 → ∀ r, c.releaseDate? = some r →
    ∃ x, c.expiryDate? = some x ∧ r ≤ x

namespace Booking

variable {inputs : Inputs} {assumption : Assumption} {b : Booking} {unit : Sentence}
variable {entry : TimelineEntry} {c : UnitCalculation}

/-- No date but that of supervision is before sentencing. -/
theorem sentencedAt_le_date (hconfig : config.Moderate)
    (hreturned : ∀ r, entry.recallAnchor = some r → c.sentencedAt ≤ r)
    (h : b.calculateUnit config inputs entry = .ok c) {kind : DateKind} (hkind : kind ≠ .tused)
    {d : Date} (hd : c.date? kind = some d) : c.sentencedAt ≤ d := by
  rw [(inStep_of_calculateUnit h).date?_eq, Option.map_eq_some_iff] at hd
  obtain ⟨found, hfound, rfl⟩ := hd
  rw [Date.le_iff]
  -- one case for each way in which a date is reckoned
  cases calculateUnit_allReckoned h kind found hfound with
  | expiry _ hdate => exact Date.start_le_of_lastDay (Breakdown.lastDays_of_inclusive hdate).2
  | release _ _ hdate => exact Date.start_le_of_lastDay (Breakdown.lastDays_of_inclusive hdate).2
  | parole _ _ _ _ hdate => exact Date.start_le_of_lastDay (Breakdown.lastDays_of_inclusive hdate).2
  | afterRecall _ _ expiry hexpiry hdate =>
    have hstart := Date.start_le_of_lastDay (Breakdown.lastDays_of_inclusive hexpiry).2
    exact Sentence.le_releaseAfterRecall hstart
      (fun r hr => Date.le_iff.mp (hreturned r hr)) hdate
  | scheme e he hdate =>
    cases e with
    | curfew variant =>
      have hday := CurfewTerms.minimum_le_date hdate
      have hminimum := (hconfig.custodialDays variant).1
      omega
    | removal =>
      obtain ⟨_, _, _, _, _, hday⟩ := RemovalTerms.date_eq_ok hdate
      omega
    | supervision => exact absurd he hkind

/-- Where a unit has parole, it is not recalled and has days to parole. -/
theorem paroleDays_of_parole (h : b.calculateUnit config inputs entry = .ok c) {p : Date}
    (hp : c.date? .ped = some p) :
    ∃ track days, entry.unit.track? = some track ∧ track ≠ .recall ∧ c.paroleDays = some days
      ∧ p.day = c.sentencedAt.day + max (wrap64 (days + c.adjustments.releaseDays) - 1) 0 := by
  obtain ⟨track, htrack, hdate⟩ := date?_parole_of_calculateUnit h
  rw [hp, Option.map_some] at hdate
  split at hdate
  · cases hdate
  · next hrecall =>
    obtain ⟨days, hdays, hday⟩ := Option.map_eq_some_iff.mp hdate.symm
    exact ⟨track, days, htrack, hrecall, hdays, hday.symm⟩

/-- Where a unit that is released has no parole, it has no days to parole. -/
theorem paroleDays_eq_none (h : b.calculateUnit config inputs entry = .ok c)
    (hrelease : c.releaseDate? ≠ none) (hnone : c.date? .ped = none) : c.paroleDays = none := by
  obtain ⟨track, htrack, hdate⟩ := date?_parole_of_calculateUnit h
  obtain ⟨_, track', _, _, _, htrack', _, hdated, _⟩ := calculateUnit_dated h
  cases Option.some.inj (htrack.symm.trans htrack')
  rw [hnone, Option.map_none, if_neg (mt hdated.releaseDate?_eq_none_iff.mpr hrelease)] at hdate
  exact Option.map_eq_none_iff.mp hdate.symm

/-- Parole of a unit is considered by the time it is released, on licence. -/
theorem parole_le_licence (hconfig : config.Moderate)
    (hclassified : ClassifiedAs config inputs assumption unit entry.unit)
    (hcovered : unit.checkCovered = .ok ())
    (h : b.calculateUnit config inputs entry = .ok c) {p : Date} (hp : c.date? .ped = some p) :
    ∃ r, c.date? .crd = some r ∧ p ≤ r := by
  obtain ⟨_, track, _, m, _, htrack, hm, hdated, _⟩ := calculateUnit_dated h
  obtain ⟨track', days, htrack', hrecall, hdays, _⟩ := paroleDays_of_parole h hp
  cases Option.some.inj (htrack.symm.trans htrack')
  -- units with parole are extended, and released on licence
  obtain rfl : c.undated = m := hdated.undated
  have hextended := hm.track_of_paroleDays hconfig.parole
    (show c.paroleDays ≠ none from hdays ▸ Option.some_ne_none days)
  have hkind : c.undated.releaseKind = .crd := if_pos (hm.hasLicence_of_track (.inr hextended))
  obtain ⟨r, _, hdates⟩ := hdated.released hrecall
  have hcrd : c.date? .crd = some r := by
    rw [hdates .crd (.inl rfl), hkind, if_pos rfl]
  have hinOrder := calculateUnit_inOrder hconfig.points hconfig.parole hclassified hcovered h
  obtain ⟨r', hr', hle⟩ := hinOrder.parole p hp
  rw [hdated.releaseDate?_eq (.inl rfl) hcrd] at hr'
  cases hr'
  exact ⟨r, hcrd, hle⟩

/-- Removal of a unit is not after parole, or without it not after release. -/
theorem removal_le (hconfig : config.Moderate) (h : b.calculateUnit config inputs entry = .ok c)
    {e : Date} (he : c.date? .ersed = some e) :
    e.day ≤ c.sentencedAt.day
      + max (wrap64 (c.paroleDays.getD c.releaseDays + c.adjustments.releaseDays) - 1) 0 := by
  obtain ⟨_, _, _, m, _, _, hm, hdated, _⟩ := calculateUnit_dated h
  obtain rfl : c.undated = m := hdated.undated
  obtain ⟨hrelease, hparole⟩ := hm.days_bounds hconfig
  have hanchor : 0 ≤ c.paroleDays.getD c.releaseDays
      ∧ c.paroleDays.getD c.releaseDays ≤ c.expiryDays := by
    cases hdays : c.paroleDays with
    | none => exact ⟨hrelease.1, hrelease.2.1⟩
    | some days => exact hparole days hdays
  rw [(inStep_of_calculateUnit h).date?_eq, Option.map_eq_some_iff] at he
  obtain ⟨found, hfound, rfl⟩ := he
  have hgiven : Reckoned config entry.recallAnchor entry.unit c Eligibility.removal.kind found :=
    calculateUnit_allReckoned h .ersed found hfound
  have hrange : c.expiryDays ≤ 200000000 := hrelease.2.2
  exact RemovalTerms.date_le_anchor hconfig hanchor.1 (by omega) hgiven.scheme_eq_ok

/-- Release after the recall of a unit is not after its expiry, with the licence. -/
theorem recall_le_expiry (h : b.calculateUnit config inputs entry = .ok c) {p : Date}
    (hp : c.date? .prrd = some p) : ∃ x, c.date? .sled = some x ∧ p ≤ x := by
  obtain ⟨_, track, _, m, _, htrack, hm, hdated, _⟩ := calculateUnit_dated h
  rw [(inStep_of_calculateUnit h).date?_eq, Option.map_eq_some_iff] at hp
  obtain ⟨found, hfound, rfl⟩ := hp
  obtain ⟨hrecall, expiry, hexpiry, hafter⟩ :=
    (calculateUnit_allReckoned h .prrd found hfound).afterRecall_eq_ok
  obtain rfl : c.undated = m := hdated.undated
  cases Option.some.inj (htrack.symm.trans hrecall)
  -- a recalled unit has a licence, so it expires with the licence
  have hkind : c.undated.expiryKind = .sled := if_pos (hm.hasLicence_of_track (.inl rfl))
  obtain ⟨x, hx, hdates⟩ := hdated.expiry
  refine ⟨x, by rw [hdates .sled (.inl rfl), hkind, if_pos rfl], ?_⟩
  have hday := Breakdown.inclusive_eq_ok hm.fits_adjustedExpiryDays hexpiry
  have hle := Sentence.releaseAfterRecall_le hafter
  rw [Date.le_iff, hx]
  exact hle.trans hday.le

/-- Without awarded days a unit is not released after its expiry. -/
theorem release_le_of_calculateUnit (hconfig : config.Moderate)
    (h : b.calculateUnit config inputs entry = .ok c)
    (hawarded : c.adjustments.releaseExtensionDays = 0) {r : Date} (hr : c.releaseDate? = some r) :
    ∃ x, c.expiryDate? = some x ∧ r ≤ x := by
  obtain ⟨adjustments, _, _, m, _, _, hm, hdated, _⟩ := calculateUnit_dated h
  obtain rfl : c.undated = m := hdated.undated
  have hadjusted : c.adjustments = adjustments := hm.adjustments_eq
  obtain ⟨x, hx, hexpiry⟩ := hdated.expiryDate?_eq
  have hrelease := hdated.day_of_releaseDate? hr
  -- without awarded days both counts are put back alike
  have hle := hm.adjustedReleaseDays_le hconfig.points (hadjusted ▸ hawarded)
    (Date.count_le_of_day_eq hrelease)
  refine ⟨x, hexpiry, ?_⟩
  rw [Date.le_iff]
  omega

/-- **The dates of a unit are within bounds.** -/
theorem calculateUnit_withinBounds (hconfig : config.Moderate)
    (hclassified : ClassifiedAs config inputs assumption unit entry.unit)
    (hcovered : unit.checkCovered = .ok ())
    (hreturned : ∀ r, entry.recallAnchor = some r → c.sentencedAt ≤ r)
    (h : b.calculateUnit config inputs entry = .ok c) : c.WithinBounds := by
  obtain ⟨_, track, _, m, _, htrack, hm, hdated, heligible⟩ := calculateUnit_dated h
  obtain rfl : c.undated = m := hdated.undated
  obtain ⟨hrelease, _⟩ := hm.days_bounds hconfig
  refine ⟨⟨hrelease.1, hrelease.2.1⟩,
    fun kind hkind d => sentencedAt_le_date hconfig hreturned h hkind,
    fun p => parole_le_licence hconfig hclassified hcovered h, fun e he p hp => ?_,
    fun e he hnone => ?_, fun p => recall_le_expiry h,
    fun hawarded r => release_le_of_calculateUnit hconfig h hawarded⟩
  · -- parole is at the limit of removal
    obtain ⟨_, days, _, _, hdays, hday⟩ := paroleDays_of_parole h hp
    have hle := removal_le hconfig h he
    rw [hdays, Option.getD_some, ← hday] at hle
    exact Date.le_iff.mpr hle
  · have hreleased : c.releaseDate? ≠ none :=
      heligible (fun hrecall => hclassified.isRecall_of_track (hrecall ▸ htrack)) .ersed
        (.inr (.inr rfl)) (he ▸ Option.some_ne_none e)
    obtain ⟨r, hr⟩ := Option.ne_none_iff_exists'.mp hreleased
    have hle := removal_le hconfig h he
    have hday : r.day = c.sentencedAt.day + max (c.adjustedReleaseDays - 1) 0 :=
      hdated.day_of_releaseDate? hr
    have hadjusted : c.adjustedReleaseDays
        = wrap64 (c.releaseDays + c.adjustments.releaseDays) := by
      have hsame : c.adjustments = _ := hm.adjustments_eq
      rw [hsame]
      exact hm.adjustedReleaseDays
    rw [paroleDays_eq_none h hreleased hnone, Option.getD_none, ← hadjusted, ← hday] at hle
    exact ⟨r, hr, Date.le_iff.mpr hle⟩

end Booking

end Custody
