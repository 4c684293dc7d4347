import Custody.Proofs.Unit.ReleasePoint
import Custody.Proofs.Unit.Schemes

/-!
# The order of the dates of a unit

Parole and release are fractions of the same custodial term, put back by the same days, so with
fractions in order parole is not after release. After a recall a unit is released at the latest when
its licence expires, which is when it expires itself. Schemes change none of these dates.

* **`ReleasePoints.ParoleFirst`**: parole is for extended sentences, and no later than release.
* **`paroleDays_bounds`**: the days to parole against the days to release.
* **`UnitCalculation.InOrder`**, **`Booking.calculateUnit_inOrder`**: the dates of a unit.
-/

namespace Custody

open Custody.Calendar

/-! ## Days to parole -/

/-- Parole is considered on tracks of extended sentences alone, after a fraction of at most five
places that is no greater than the fraction to release. -/
structure ReleasePoints.ParoleFirst (points : ReleasePoints) : Prop where
  isExtended : ∀ track m, points.paroleMultiplier? track = some m →
    track = .edsAutomatic ∨ track = .edsDiscretionary
  places_le : ∀ track m, points.paroleMultiplier? track = some m → m.places ≤ 5
  nonneg : ∀ track m, points.paroleMultiplier? track = some m → 0 ≤ m.value
  le_fraction : ∀ track m, points.paroleMultiplier? track = some m →
    m.value ≤ points.fraction track

namespace Sentence

variable {points : ReleasePoints} {track : Track}

theorem sum_share_of_track {parts : List Part} (h : ∀ p ∈ parts, p.track = some track) :
    (parts.map points.share).sum
      = (totalOf Part.custodialDays parts : ℚ) * points.fraction track := by
  induction parts with
  | nil => simp
  | cons p parts ih =>
    rw [List.forall_mem_cons] at h
    rw [List.map_cons, List.sum_cons, ih h.2, totalOf_cons, ReleasePoints.share, h.1]
    push_cast
    rw [Option.map_some, Option.getD_some]
    ring

/-- **Parole is not after release** where all parts are on one track. -/
theorem paroleDays_bounds (hpoints : points.AreShort) (hparole : points.ParoleFirst) {a : Aggregate}
    (ha : Contiguous a.sentencedAt a.parts a.finish) (hrecall : track ≠ .recall)
    (hparts : ∀ p ∈ a.parts, p.track = some track) {n k : Int}
    (h : daysToRelease points track a = .ok n)
    (h' : daysToParole? points track a = .ok (some k)) : 0 ≤ k ∧ k ≤ n := by
  -- the days to release are the whole custodial term at the fraction of the track
  have hn : n = ⌈(totalOf Part.custodialDays a.parts : ℚ) * points.fraction track⌉ := by
    rcases daysToRelease_cases hpoints ha h with ⟨hr, _⟩ | ⟨_, hn⟩
    · exact absurd hr hrecall
    · rw [hn, sum_share_of_track hparts]
  unfold daysToParole? at h'
  split at h'
  · next m hm =>
    obtain ⟨days, hdays, h'⟩ := Answered.bind_eq_ok.mp h'
    cases h'
    have hnonneg := hparole.nonneg track m hm
    have hfraction := hparole.le_fraction track m hm
    have hcustody : (0 : ℚ) ≤ totalOf Part.custodialDays a.parts := by
      exact_mod_cast totalOf_nonneg ha.custodialDays_nonneg
    have hrange : (totalOf Part.custodialDays a.parts : ℚ) ≤ 200000000 := by
      exact_mod_cast ha.custodialDays_le.trans (Date.daysUntil_le_range _ _)
    have hle : (totalOf Part.custodialDays a.parts : ℚ) * m.value
        ≤ totalOf Part.custodialDays a.parts * points.fraction track :=
      mul_le_mul_of_nonneg_left hfraction hcustody
    have hone : (totalOf Part.custodialDays a.parts : ℚ) * points.fraction track
        ≤ totalOf Part.custodialDays a.parts :=
      mul_le_of_le_one_right hcustody (hpoints.fraction_le_one track)
    have hexact := Decimal.value_ofInt_mul (n := totalOf Part.custodialDays a.parts)
      (hparole.places_le track m hm) (mul_nonneg hcustody hnonneg) (by linarith)
    rw [hn, ceilDays_eq_ok hdays, show Decimal.ofInt a.custodialDays * m
      = Decimal.ofInt (totalOf Part.custodialDays a.parts) * m from rfl, hexact.1]
    exact ⟨Int.ceil_nonneg (mul_nonneg hcustody hnonneg), Int.ceil_le_ceil hle⟩
  · cases h'

end Sentence

/-- Extended sentences are not served in chains, so the only part of one is on its track. -/
theorem ClassifiedAs.track_of_mem_parts {config : Config} {inputs : Inputs}
    {assumption : Assumption} {unit after : Sentence} {track : Track} {a : Aggregate}
    (h : ClassifiedAs config inputs assumption unit after) (hcovered : unit.checkCovered = .ok ())
    (ht : after.track? = some track) (hextended : track = .edsAutomatic ∨ track = .edsDiscretionary)
    (ha : after.aggregate = .ok a) : ∀ p ∈ a.parts, p.track = some track := by
  cases unit with
  | chain parts whole =>
    have hmem := h.mem_componentTracks ht
    obtain ⟨hautomatic, hdiscretionary⟩ := h.not_extended_of_covered hcovered
    rcases hextended with rfl | rfl
    · exact absurd hmem hautomatic
    · exact absurd hmem hdiscretionary
  | single s =>
    have huntracked := h.untracked_eq
    cases after with
    | chain parts whole => cases huntracked
    | single s' =>
      -- one component is laid out as one part
      have htracks : a.parts.map Part.track = [s'.track] := Sentence.aggregate_tracks ha
      intro p hp
      have hmem := List.mem_map_of_mem (f := Part.track) hp
      rw [htracks, List.mem_singleton] at hmem
      exact hmem.trans ht

/-! ## Dates of a unit -/

/-- A unit has no licence that ends before the sentence, is considered for parole by the time it is
released, and is released after a recall by the time it expires. -/
structure UnitCalculation.InOrder (c : UnitCalculation) : Prop where
  licence : c.date? .led = none
  parole : ∀ d, c.date? .ped = some d → ∃ r, c.releaseDate? = some r ∧ d.day ≤ r.day
  afterRecall : ∀ d, c.date? .prrd = some d → ∃ x, c.expiryDate? = some x ∧ d.day ≤ x.day

/-- None of these dates is one of a scheme. -/
theorem UnitCalculation.InOrder.congr {c c' : UnitCalculation} (h : c.InOrder)
    (hdate : ∀ kind, (∀ e : Eligibility, e.kind ≠ kind) → c'.date? kind = c.date? kind) :
    c'.InOrder := by
  -- a kind of none of the schemes is left alone
  have hkind (kind : DateKind) (hnot : kind ∉ [DateKind.hdced, .hdced4plus, .ersed, .tused]) :
      c'.date? kind = c.date? kind := by
    refine hdate kind fun e heq => hnot ?_
    rw [← heq]
    rcases e with (_ | _) | _ | _ <;> decide
  have hrelease : c'.releaseDate? = c.releaseDate? := by
    unfold releaseDate?
    rw [hkind .crd (by decide), hkind .ard (by decide)]
  have hexpiry : c'.expiryDate? = c.expiryDate? := by
    unfold expiryDate?
    rw [hkind .sled (by decide), hkind .sed (by decide)]
  refine ⟨?_, fun d hd => ?_, fun d hd => ?_⟩
  · rw [hkind .led (by decide)]
    exact h.licence
  · rw [hkind .ped (by decide)] at hd
    rw [hrelease]
    exact h.parole d hd
  · rw [hkind .prrd (by decide)] at hd
    rw [hexpiry]
    exact h.afterRecall d hd

namespace Sentence

variable {type : RecallType} {expiry : Date} {returned : Option Date} {after : Breakdown}

/-- Release after a recall: at expiry, or at the end of a fixed term if that is earlier. -/
theorem releaseAfterRecall_eq_ok (h : releaseAfterRecall type expiry returned = .ok after) :
    (type.fixedTermDays? = none ∧ after.releaseDate = expiry)
      ∨ ∃ days r release, type.fixedTermDays? = some days ∧ returned = some r
        ∧ r.lastDay days = .ok release
        ∧ after.releaseDate.day = min release.day expiry.day := by
  unfold releaseAfterRecall at h
  split at h
  · next hterm =>
    cases h
    exact .inl ⟨hterm, rfl⟩
  · next days hterm =>
    simp only [Answered.bind_eq_ok, Answered.pure_eq_ok, Answered.orFail_eq_ok] at h
    obtain ⟨r, hr, release, hrelease, rfl⟩ := h
    refine .inr ⟨days, r, release, hterm, hr, hrelease, ?_⟩
    split
    · next hlate => exact (min_eq_right (Date.lt_iff.mp hlate).le).symm
    · next hearly => exact (min_eq_left (not_lt.mp (mt Date.lt_iff.mpr hearly))).symm

theorem releaseAfterRecall_le (h : releaseAfterRecall type expiry returned = .ok after) :
    after.releaseDate.day ≤ expiry.day := by
  rcases releaseAfterRecall_eq_ok h with ⟨_, hexpiry⟩ | ⟨_, _, _, _, _, _, hday⟩
  · exact hexpiry ▸ le_rfl
  · omega

/-- Release after a recall is not before a day that neither expiry nor the return is before. -/
theorem le_releaseAfterRecall {n : Int} (hexpiry : n ≤ expiry.day)
    (hreturned : ∀ r, returned = some r → n ≤ r.day)
    (h : releaseAfterRecall type expiry returned = .ok after) : n ≤ after.releaseDate.day := by
  rcases releaseAfterRecall_eq_ok h with ⟨_, hsame⟩ | ⟨_, r, _, _, hr, hterm, hday⟩
  · exact hsame ▸ hexpiry
  · have hback := hreturned r hr
    have hstart := Date.start_le_of_lastDay hterm
    omega

variable {config : Config} {adjustments : AppliedAdjustments}

/-- A unit starts with its dates in order if it has no more days to parole than to release. -/
theorem calculate_inOrder {s : Sentence} {c : UnitCalculation}
    (hpoints : config.releasePoints.AreShort)
    (h : s.calculate config adjustments returned = .ok c)
    (hparole : ∀ track a m, s.track? = some track → track ≠ .recall →
      Measured config adjustments track s a m → ∀ days, m.paroleDays = some days →
      0 ≤ days ∧ days ≤ m.releaseDays) : c.InOrder := by
  obtain ⟨track, m, expiry, htrack, hmeasure, hexpiry, hc⟩ := calculate_eq_ok h
  obtain ⟨a, hm⟩ := measure_measured hmeasure
  have hbounds := daysToRelease_bounds hpoints.areFractions (aggregate_contiguous hm.aggregate)
    hm.releaseDays
  have hrange : a.totalDays ≤ 200000000 := Date.daysUntil_le_range _ _
  have hnone := hm.date?_eq_none
  rcases hc with ⟨_, after, hafter, rfl⟩
    | ⟨hrecall, release, hrelease, ⟨_, rfl⟩ | ⟨days, parole, hdays, hped, rfl⟩⟩
  · have hle := releaseAfterRecall_le hafter
    unfold UnitCalculation.expiryKind
    split <;> constructor <;> simp [hnone, UnitCalculation.expiryDate?, hle]
  · unfold UnitCalculation.expiryKind UnitCalculation.releaseKind
    split <;> constructor <;> simp [hnone]
  · obtain ⟨hnonneg, hle⟩ := hparole track a m htrack hrecall hm days hdays
    have hday := Breakdown.inclusive_eq_ok (fits64_wrap64 _) hped
    have hday' := Breakdown.inclusive_eq_ok hm.fits_adjustedReleaseDays hrelease
    -- both counts are put back by the same days, and cut alike
    have hcut : wrap64 (days + adjustments.releaseDays)
        ≤ wrap64 (m.releaseDays + adjustments.releaseDays) :=
      wrap64_le_wrap64 (Date.count_le_of_day_eq hday) (by omega) (by omega)
    rw [hm.adjustedReleaseDays] at hday'
    have hbefore : parole.releaseDate.day ≤ release.releaseDate.day := by omega
    unfold UnitCalculation.expiryKind UnitCalculation.releaseKind
    split <;> constructor <;> simp [hnone, UnitCalculation.releaseDate?, hbefore]

end Sentence

/-- **The dates of a unit are in order.** -/
theorem Booking.calculateUnit_inOrder {config : Config} {inputs : Inputs} {assumption : Assumption}
    {b : Booking} {unit : Sentence} {entry : TimelineEntry} {c : UnitCalculation}
    (hpoints : config.releasePoints.AreShort) (hparole : config.releasePoints.ParoleFirst)
    (hclassified : ClassifiedAs config inputs assumption unit entry.unit)
    (hcovered : unit.checkCovered = .ok ())
    (h : b.calculateUnit config inputs entry = .ok c) : c.InOrder := by
  obtain ⟨_, start, _, hstart, hinStep, _, hschemed⟩ := calculateUnit_eq_ok h
  have hstartInOrder : start.InOrder := by
    refine Sentence.calculate_inOrder hpoints hstart ?_
    intro track a m htrack hrecall hm days hdays
    have hparoleDays := hm.paroleDays
    rw [hdays] at hparoleDays
    refine Sentence.paroleDays_bounds hpoints hparole (Sentence.aggregate_contiguous hm.aggregate)
      hrecall (hclassified.track_of_mem_parts hcovered htrack ?_ hm.aggregate) hm.releaseDays
      hparoleDays
    -- there are days to parole, so the unit is on a track with a fraction to parole
    unfold Sentence.daysToParole? at hparoleDays
    split at hparoleDays
    · next multiplier hmultiplier => exact hparole.isExtended track multiplier hmultiplier
    · cases hparoleDays
  exact hstartInOrder.congr fun kind hkind =>
    hschemed.date?_of_others hinStep fun e _ => hkind e

/-! ## England and Wales -/

namespace EnglandAndWales

theorem releasePoints_paroleFirst : config.releasePoints.ParoleFirst where
  isExtended track m hm := by
    cases track <;> first | exact .inr rfl | cases hm
  places_le track m hm := by
    cases track <;> cases hm
    decide
  nonneg track m hm := by
    cases track <;> cases hm
    decide +kernel
  le_fraction track m hm := by
    cases track <;> cases hm
    decide +kernel

end EnglandAndWales

end Custody
