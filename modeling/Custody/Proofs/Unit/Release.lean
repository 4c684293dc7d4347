import Custody.Proofs.Outcome.Latest
import Custody.Proofs.Unit.Agreement

/-!
# Release of a unit

How the release of a unit compares with its expiry, and with its release under the other assumption.
Both comparisons are made on the counts of days, which the adjustments move together, and carry over
to the dates that the counts end on.

* **`Measured.adjustedReleaseDays_le`**: without awarded days a unit is not released after it
  expires.
* **`Measured.eased`**: under early release a unit is released on the same terms, and no later.
-/

namespace Custody

open Custody.Calendar

variable {config : Config} {adjustments : AppliedAdjustments} {track : Track}
variable {m c : UnitCalculation}

/-! ## Release and expiry -/

/-- **Without awarded days a unit is not released after it expires.** -/
theorem Sentence.Measured.adjustedReleaseDays_le {s : Sentence} {a : Aggregate}
    (hm : Measured config adjustments track s a m) (hpoints : config.releasePoints.AreShort)
    (hawarded : adjustments.releaseExtensionDays = 0)
    (hreach : m.adjustedReleaseDays ≤ 1000000000) :
    m.adjustedReleaseDays ≤ m.adjustedExpiryDays := by
  have hbounds := daysToRelease_bounds hpoints.areFractions (aggregate_contiguous hm.aggregate)
    hm.releaseDays
  have hrange : a.totalDays ≤ 200000000 := Date.daysUntil_le_range _ _
  have hsame : adjustments.releaseDays = adjustments.custodyDays := by
    rw [AppliedAdjustments.releaseDays, hawarded, Int.add_zero]
    exact wrap64_of_fits (fits64_wrap64 _)
  rw [hm.adjustedReleaseDays, hsame] at hreach ⊢
  rw [hm.adjustedExpiryDays, hm.expiryDays]
  exact wrap64_le_wrap64 hreach (by omega) (by omega)

theorem Dated.expiryDate_eq (h : Dated track m c) :
    ∃ x : Date, x.day = m.sentencedAt.day + max (m.adjustedExpiryDays - 1) 0
      ∧ c.dateAmong? [.sled, .sed] = some x := by
  obtain ⟨x, hx, hdates⟩ := h.expiry
  refine ⟨x, hx, ?_⟩
  rw [UnitCalculation.dateAmong?, List.findSome?_cons, List.findSome?_singleton,
    hdates .sled (.inl rfl), hdates .sed (.inr rfl)]
  rcases m.expiryKind_isExpiry with hkind | hkind <;> rw [hkind] <;> rfl

theorem Dated.day_of_release (h : Dated track m c) {kind : DateKind} (hkind : kind.IsRelease)
    {r : Date} (hr : c.date? kind = some r) :
    r.day = m.sentencedAt.day + max (m.adjustedReleaseDays - 1) 0 := by
  by_cases hrecall : track = .recall
  · rw [h.recalled hrecall kind hkind] at hr
    cases hr
  · obtain ⟨r', hr', hdates⟩ := h.released hrecall
    rw [hdates kind hkind] at hr
    split at hr
    · cases hr
      exact hr'
    · cases hr

/-- A unit is released once. -/
theorem Dated.releaseDate?_eq (h : Dated track m c) {kind : DateKind} (hkind : kind.IsRelease)
    {r : Date} (hr : c.date? kind = some r) : c.releaseDate? = some r := by
  have hrecall : track ≠ .recall := by
    rintro rfl
    rw [h.recalled rfl kind hkind] at hr
    cases hr
  -- such a unit is not recalled, so it has one kind of release
  obtain ⟨r', _, hdates⟩ := h.released hrecall
  rw [hdates kind hkind] at hr
  split at hr
  · next hsame =>
    cases hr
    rw [UnitCalculation.releaseDate?, hdates .crd (.inl rfl), hdates .ard (.inr rfl), ← hsame]
    rcases hkind with rfl | rfl <;> rfl
  · cases hr

/-! ## Release under both assumptions -/

/-- **Under early release a unit is released on the same terms, and no later.** -/
theorem Sentence.Measured.eased {inputs : Inputs} {unit standard early : Sentence} {track' : Track}
    {a a' : Aggregate} {m' : UnitCalculation} (hpoints : config.releasePoints.AreFractions)
    (hearly : config.releasePoints.fraction .sdsEarly ≤ config.releasePoints.fraction .sdsStandard)
    (hs : ClassifiedAs config inputs .standard unit standard)
    (he : ClassifiedAs config inputs .early unit early)
    (htracks : track = track' ∨ track.isSds = true ∧ track'.isSds = true)
    (hm : Measured config adjustments track standard a m)
    (hm' : Measured config adjustments track' early a' m') :
    m.sentencedAt = m'.sentencedAt ∧ m.releaseKind = m'.releaseKind
      ∧ (m'.adjustedReleaseDays ≤ 1000000000 →
        m'.adjustedReleaseDays ≤ m.adjustedReleaseDays) := by
  -- both are laid out alike, on tracks of which the early one has the smaller fraction
  obtain ⟨huntracked, hparts⟩ := hs.aggregate_eased he hm.aggregate hm'.aggregate
  have hle := daysToRelease_le_of_eased hpoints hearly (aggregate_contiguous hm.aggregate)
    huntracked hparts htracks hm.releaseDays hm'.releaseDays
  obtain ⟨hsentenced, _, _, hlicence⟩ := hm.agree hs he htracks hm'
  refine ⟨hsentenced, ?_, fun hreach => ?_⟩
  · rw [UnitCalculation.releaseKind, UnitCalculation.releaseKind, hlicence]
  · have hrange : a.totalDays ≤ 200000000 := Date.daysUntil_le_range _ _
    rw [hm'.adjustedReleaseDays] at hreach ⊢
    rw [hm.adjustedReleaseDays]
    exact wrap64_le_wrap64 hreach (by omega) (by omega)

/-- What holds of the counts of days holds of the dates. -/
theorem Dated.eased {track' : Track} {m' c' : UnitCalculation} (h : Dated track m c)
    (h' : Dated track' m' c') (htracks : track = .recall ↔ track' = .recall)
    (hsentenced : m.sentencedAt = m'.sentencedAt) (hkind : m.releaseKind = m'.releaseKind)
    (hdays : m'.adjustedReleaseDays ≤ 1000000000 →
      m'.adjustedReleaseDays ≤ m.adjustedReleaseDays) : UnitCalculation.Eased c c' := by
  intro kind hrelease
  by_cases hrecall : track = .recall
  · rw [h.recalled hrecall kind hrelease, h'.recalled (htracks.mp hrecall) kind hrelease]
    exact .none
  · -- both are released, and on dates of the same kind
    obtain ⟨r, hr, hdates⟩ := h.released hrecall
    obtain ⟨r', hr', hdates'⟩ := h'.released fun h => hrecall (htracks.mpr h)
    rw [hdates kind hrelease, hdates' kind hrelease, hkind]
    split
    · have hle := hdays (Date.count_le_of_day_eq hr')
      refine .some ?_
      rw [hr, hr', hsentenced]
      omega
    · exact .none

end Custody
