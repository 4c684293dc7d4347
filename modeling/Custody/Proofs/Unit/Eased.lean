import Custody.Proofs.Calendar.Reach
import Custody.Proofs.Config.Usable
import Custody.Proofs.Unit.Release
import Custody.Proofs.Unit.Schemes

/-!
# The dates of a unit under early release

Under early release a unit has no more days to release, and the same days to parole, as long as
parole is not considered on tracks of standard determinate sentences. Removal and supervision are
counted from there: removal from a number of days before release or from a fraction, whichever is
later, and supervision by months and back to a working day. Each of these steps keeps the order of
what it is given, so no date comes out later.

* **`RemovalTerms.date_le`**, **`SupervisionTerms.date_le`**: what is counted from fewer days is no
  later.
* **`UnitCalculation.EasedDates`**, **`Booking.calculateUnit_eased`**: the dates of a unit.
-/

namespace Custody

open Custody.Calendar

/-! ## Settings -/

theorem Decimal.IsFraction.value_nonneg {d : Decimal} (h : d.IsFraction) : 0 ≤ d.value := by
  have hpos := h.pos
  rw [le_iff_value, show (0 : Decimal).value = 0 from value_ofInt 0] at hpos
  exact (not_le.mp hpos).le

theorem Decimal.IsFraction.value_le_one {d : Decimal} (h : d.IsFraction) : d.value ≤ 1 := by
  have hle := h.le_one
  rw [le_iff_value, show (1 : Decimal).value = ((1 : Int) : ℚ) from value_ofInt 1] at hle
  exact_mod_cast hle

theorem Config.Usable.areFractions {config : Config} (h : config.Usable) :
    config.releasePoints.AreFractions := by
  refine ⟨fun track => ?_, fun track => ?_⟩
  · obtain ⟨m, hm, hfraction⟩ := h.multiplier track
    rw [ReleasePoints.fraction, hm]
    exact hfraction.value_nonneg
  · obtain ⟨m, hm, hfraction⟩ := h.multiplier track
    rw [ReleasePoints.fraction, hm]
    exact hfraction.value_le_one

/-! ## Removal -/

/-- Of a count in the range there is room for a fraction. -/
theorem Decimal.IsFraction.mul_le_maxMantissa {m : Decimal} (hm : m.IsFraction) {n : Nat}
    (hroom : n ≤ 200000000) : (n : ℚ) * m.value ≤ Decimal.maxMantissa := by
  have hlarge : 200000000 ≤ Decimal.maxMantissa := by decide
  have hn : (n : ℚ) ≤ Decimal.maxMantissa := by exact_mod_cast hroom.trans hlarge
  exact (mul_le_of_le_one_right (Nat.cast_nonneg n) hm.value_le_one).trans hn

section Fraction

variable {n n' k k' : Int} {m : Decimal} (hm : m.IsFraction) (hn : 0 ≤ n)

include hm hn

theorem daysAtFraction_nonneg (hroom : n ≤ 200000000) (h : daysAtFraction n m = .ok k) :
    0 ≤ k := by
  obtain ⟨a, rfl⟩ := Int.eq_ofNat_of_zero_le hn
  have hroom' := hm.mul_le_maxMantissa (n := a) (by omega)
  have hstored := Decimal.ofInt_mul_stored hm.value_nonneg hroom'
  rw [Sentence.ceilDays_eq_ok h]
  exact Int.ceil_nonneg hstored.1.nonneg

/-- A fraction of fewer days is no more days. -/
theorem daysAtFraction_mono (hle : n ≤ n') (hroom : n' ≤ 200000000)
    (h : daysAtFraction n m = .ok k) (h' : daysAtFraction n' m = .ok k') : k ≤ k' := by
  obtain ⟨a, rfl⟩ := Int.eq_ofNat_of_zero_le hn
  obtain ⟨b, rfl⟩ := Int.eq_ofNat_of_zero_le (hn.trans hle)
  rw [Sentence.ceilDays_eq_ok h, Sentence.ceilDays_eq_ok h']
  exact Int.ceil_le_ceil (Decimal.ofInt_mul_mono hm.value_nonneg (by omega) le_rfl
    (hm.mul_le_maxMantissa (by omega)))

end Fraction

namespace RemovalTerms

variable {terms : RemovalTerms} {c c' : UnitCalculation} {b b' : Breakdown}

theorem fractionOn?_isFraction (hterms : ∀ entry ∈ terms.fractions, entry.fraction.IsFraction)
    {date : Date} {m : Decimal} (h : terms.fractionOn? date = some m) : m.IsFraction := by
  obtain ⟨entry, hentry, rfl⟩ := exists_mem_of_fractionOn? h
  exact hterms entry hentry

/-- The days that removal is counted from: the latest that the maximum before release and the
minimum fraction allow. -/
def countedDays (terms : RemovalTerms) (anchorDays minimumDays : Int) : Int :=
  max minimumDays (wrap64 (anchorDays - terms.maximumDays))

theorem countedDays_mono {anchorDays anchorDays' minimumDays minimumDays' : Int}
    (hreach : terms.countedDays anchorDays' minimumDays' ≤ 1000000000)
    (hanchor : anchorDays' ≤ anchorDays) (hnear : anchorDays ≤ anchorDays' + 1000000000)
    (hminimum : minimumDays' ≤ minimumDays) :
    terms.countedDays anchorDays' minimumDays' ≤ terms.countedDays anchorDays minimumDays := by
  have hcut := wrap64_le_wrap64 (m := anchorDays' - terms.maximumDays)
    (n := anchorDays - terms.maximumDays) ((le_max_right _ _).trans hreach) (by omega) (by omega)
  exact max_le_max hminimum hcut

/-- Where removal would be without a limit: its days are counted from sentencing, and since the
dates are in the range none of the sums has been cut. -/
theorem unlimited_eq_ok {date unadjusted : Date} {rule : Rule}
    (h : terms.unlimited c = .ok (date, unadjusted, rule)) :
    ∃ m days, terms.fractionOn? c.sentencedAt = some m
      ∧ daysAtFraction (c.paroleDays.getD c.releaseDays) m = .ok days
      ∧ unadjusted.day = c.sentencedAt.day
        + (terms.countedDays (c.paroleDays.getD c.releaseDays) days - 1)
      ∧ date.day = c.sentencedAt.day
        + (terms.countedDays (c.paroleDays.getD c.releaseDays) days - 1
          + c.adjustments.releaseDays) := by
  simp only [unlimited, Answered.bind_eq_ok, Answered.orFail_eq_ok, Answered.pure_eq_ok,
    Date.plusDays_eq_ok, Prod.mk.injEq] at h
  obtain ⟨m, hm, days, hdays, d, hd, u, hu, rfl, rfl, _⟩ := h
  generalize c.paroleDays.getD c.releaseDays = anchorDays at *
  have hfits := fits64_iff.mp (Sentence.fits_of_ceilDays hdays)
  have hrange := c.sentencedAt.daysUntil_bounds u
  obtain ⟨k, hk⟩ := wrap64_spec (anchorDays - terms.maximumDays)
  obtain ⟨k', hk'⟩ := wrap64_spec (anchorDays - 1 - terms.maximumDays)
  obtain ⟨k'', hk''⟩ := wrap64_spec (days - 1)
  -- the unadjusted date is in the range, so what is counted from there is not cut
  obtain ⟨n, hn, hu, hd⟩ : ∃ n, n = terms.countedDays anchorDays days - 1
      ∧ u.day = c.sentencedAt.day + n
      ∧ d.day = c.sentencedAt.day + wrap64 (n + c.adjustments.releaseDays) := by
    refine ⟨_, ?_, hu, hd⟩
    clear hd
    revert hu
    unfold countedDays
    split <;> intro hu <;> omega
  refine ⟨m, days, hm, hdays, ?_⟩
  rw [← hn]
  refine ⟨hu, ?_⟩
  exact Date.day_eq_of_wrap64 (by omega) (by omega) c.adjustments.fits_releaseDays hd

/-- **Removal is after the days that it is counted from**, put back by the adjustments and not
before sentencing. -/
theorem date_eq_ok (h : terms.date c = .ok b) : ∃ m days, terms.fractionOn? c.sentencedAt = some m
    ∧ daysAtFraction (c.paroleDays.getD c.releaseDays) m = .ok days
    ∧ (-200000000 ≤ terms.countedDays (c.paroleDays.getD c.releaseDays) days - 1
      ∧ terms.countedDays (c.paroleDays.getD c.releaseDays) days - 1 ≤ 200000000)
    ∧ b.releaseDate.day = max (c.sentencedAt.day
        + (terms.countedDays (c.paroleDays.getD c.releaseDays) days - 1
          + c.adjustments.releaseDays)) c.sentencedAt.day := by
  simp only [date, Answered.bind_eq_ok, Answered.pure_eq_ok] at h
  obtain ⟨⟨date, unadjusted, rule⟩, hunlimited, rfl⟩ := h
  obtain ⟨m, days, hm, hdays, hcounted, hrelease⟩ := unlimited_eq_ok hunlimited
  have hrange := c.sentencedAt.daysUntil_bounds unadjusted
  refine ⟨m, days, hm, hdays, by omega, ?_⟩
  rw [← hrelease, ← Date.day_max]
  by_cases hbefore : date < c.sentencedAt <;> simp [hbefore, Breakdown.of]

/-- **Removal counted from fewer days is no later.** -/
theorem date_le (hterms : ∀ entry ∈ terms.fractions, entry.fraction.IsFraction)
    (hsentenced : c.sentencedAt = c'.sentencedAt) (hadjustments : c.adjustments = c'.adjustments)
    (hparole : c.paroleDays = c'.paroleDays) (hnonneg : 0 ≤ c'.releaseDays)
    (hle : c'.releaseDays ≤ c.releaseDays) (hroom : c.releaseDays ≤ 200000000)
    (h : terms.date c = .ok b) (h' : terms.date c' = .ok b') :
    b'.releaseDate.day ≤ b.releaseDate.day := by
  obtain ⟨m, days, hm, hdays, hcounted, hb⟩ := date_eq_ok h
  obtain ⟨m', days', hm', hdays', hcounted', hb'⟩ := date_eq_ok h'
  rw [← hsentenced, hm] at hm'
  cases hm'
  rw [hb, hb', hsentenced, hadjustments]
  have hanchor : days' ≤ days
      ∧ c'.paroleDays.getD c'.releaseDays ≤ c.paroleDays.getD c.releaseDays
      ∧ c.paroleDays.getD c.releaseDays ≤ c'.paroleDays.getD c'.releaseDays + 1000000000 := by
    rw [hparole] at hdays ⊢
    cases hc : c'.paroleDays with
    | some parole =>
      -- removal is counted from parole, which is the same
      rw [hc, Option.getD_some] at hdays hdays'
      rw [hdays] at hdays'
      cases hdays'
      simp
    | none =>
      rw [hc, Option.getD_none] at hdays hdays'
      refine ⟨daysAtFraction_mono (fractionOn?_isFraction hterms hm) hnonneg hle hroom hdays' hdays,
        hle, ?_⟩
      simp only [Option.getD_none]
      omega
  have hmono := terms.countedDays_mono (by omega) hanchor.2.1 hanchor.2.2 hanchor.1
  omega

end RemovalTerms

/-! ## Supervision -/

namespace SupervisionTerms

variable {terms : SupervisionTerms} {c c' : UnitCalculation} {b b' : Breakdown}

theorem supervisionEnd_le {sentencedAt e e' : Date} {days days' : Int}
    (hfits : fits64 days = true) (hfits' : fits64 days' = true)
    (hle : days' ≤ 1000000000 → days' ≤ days)
    (h : terms.supervisionEnd sentencedAt days = .ok e)
    (h' : terms.supervisionEnd sentencedAt days' = .ok e') : e'.day ≤ e.day := by
  simp only [supervisionEnd, Answered.bind_eq_ok, Answered.orFail_eq_ok] at h h'
  obtain ⟨release, hrelease, h⟩ := h
  obtain ⟨release', hrelease', h'⟩ := h'
  have hday := Date.day_of_lastDay hfits hrelease
  have hday' := Date.day_of_lastDay hfits' hrelease'
  -- release is in the range, so its count is small
  have hdays := hle (Date.count_le_of_day_eq hday')
  obtain ⟨found, hfound, hle⟩ := Date.addMonths?_mono (d := release') (Int.natCast_nonneg _) le_rfl
    (by omega) h
  rw [hfound] at h'
  cases h'
  exact hle

/-- **Supervision after an earlier release is no later.** -/
theorem date_le {holidays : List Date} (hsentenced : c.sentencedAt = c'.sentencedAt)
    (hle : wrap64 (c'.releaseDays + c'.adjustments.custodyDays) ≤ 1000000000 →
      wrap64 (c'.releaseDays + c'.adjustments.custodyDays)
        ≤ wrap64 (c.releaseDays + c.adjustments.custodyDays))
    (h : terms.date holidays c = .ok b) (h' : terms.date holidays c' = .ok b') :
    b'.releaseDate.day ≤ b.releaseDate.day := by
  simp only [date, Answered.bind_eq_ok, Answered.pure_eq_ok] at h h'
  obtain ⟨expiry, hexpiry, _, _, moved, hmoved, rfl⟩ := h
  obtain ⟨expiry', hexpiry', _, _, moved', hmoved', rfl⟩ := h'
  rw [hsentenced] at hexpiry
  have hend := supervisionEnd_le (fits64_wrap64 _) (fits64_wrap64 _) hle hexpiry hexpiry'
  have hday := previousWorkingDay_mono hend hmoved' hmoved
  split <;> split <;> simpa [Breakdown.of] using hday

end SupervisionTerms

/-! ## Counts -/

/-- The counts of a unit under both assumptions: the same but for fewer days to release. -/
structure UnitCalculation.EasedCounts (c c' : UnitCalculation) : Prop where
  sentencedAt : c.sentencedAt = c'.sentencedAt
  adjustments : c.adjustments = c'.adjustments
  paroleDays : c.paroleDays = c'.paroleDays
  releaseDays_nonneg : 0 ≤ c'.releaseDays
  releaseDays_le : c'.releaseDays ≤ c.releaseDays
  releaseDays_le_range : c.releaseDays ≤ 200000000

theorem UnitCalculation.EasedCounts.of_undated {m m' c c' : UnitCalculation}
    (h : m.EasedCounts m') (hc : c.undated = m) (hc' : c'.undated = m') : c.EasedCounts c' := by
  subst hc hc'
  exact ⟨h.sentencedAt, h.adjustments, h.paroleDays, h.releaseDays_nonneg, h.releaseDays_le,
    h.releaseDays_le_range⟩

/-- Parole is not considered on tracks of standard determinate sentences. -/
def ReleasePoints.NoParoleOnSds (points : ReleasePoints) : Prop :=
  ∀ track : Track, track.isSds = true → points.paroleMultiplier? track = none

variable {config : Config} {inputs : Inputs} {adjustments : AppliedAdjustments}
variable {unit standard early : Sentence} {track track' : Track}

theorem Aggregate.custodialDays_untracked (a : Aggregate) :
    a.untracked.custodialDays = a.custodialDays :=
  totalOf_map

theorem Sentence.Measured.easedCounts {a a' : Aggregate} {m m' : UnitCalculation}
    (hpoints : config.releasePoints.AreFractions)
    (hearly : config.releasePoints.fraction .sdsEarly ≤ config.releasePoints.fraction .sdsStandard)
    (hparole : config.releasePoints.NoParoleOnSds)
    (hs : ClassifiedAs config inputs .standard unit standard)
    (he : ClassifiedAs config inputs .early unit early)
    (htracks : track = track' ∨ track.isSds = true ∧ track'.isSds = true)
    (hm : Measured config adjustments track standard a m)
    (hm' : Measured config adjustments track' early a' m') : m.EasedCounts m' := by
  obtain ⟨huntracked, hparts⟩ := hs.aggregate_eased he hm.aggregate hm'.aggregate
  obtain ⟨hnonneg, hle, htotal⟩ := daysToRelease_le_of_eased hpoints hearly
    (aggregate_contiguous hm.aggregate) huntracked hparts htracks hm.releaseDays hm'.releaseDays
  obtain ⟨hsentenced, _⟩ := hm.agree hs he htracks hm'
  refine ⟨hsentenced, hm.adjustments_eq.trans hm'.adjustments_eq.symm, ?_, hnonneg, hle,
    htotal.trans (Date.daysUntil_le_range _ _)⟩
  have hdays := hm.paroleDays
  have hdays' := hm'.paroleDays
  rcases htracks with rfl | ⟨hsds, hsds'⟩
  · -- on the same track parole is the same fraction of the same custodial term
    have hcustody : a.custodialDays = a'.custodialDays := by
      rw [← a.custodialDays_untracked, huntracked, a'.custodialDays_untracked]
    unfold daysToParole? at hdays hdays'
    rw [hcustody, hdays'] at hdays
    exact (Except.ok.inj hdays).symm
  · unfold daysToParole? at hdays hdays'
    rw [hparole _ hsds] at hdays
    rw [hparole _ hsds'] at hdays'
    rw [← Except.ok.inj hdays, ← Except.ok.inj hdays']

/-! ## Dates -/

/-- The dates of a unit under both assumptions: the same dates that lead out of custody, none of
them later under early release, and supervision no later where there is any under both. -/
structure UnitCalculation.EasedDates (c c' : UnitCalculation) : Prop where
  identifier : c.identifier = c'.identifier
  noLater : ∀ kind ∈ [DateKind.crd, .ard, .ped, .ersed],
    Option.Rel (fun d e : Date => e ≤ d) (c.date? kind) (c'.date? kind)
  supervision : ∀ d e, c.date? .tused = some d → c'.date? .tused = some e → e ≤ d

namespace UnitCalculation

variable {c c' : UnitCalculation}

theorem Eased.releaseDate?_rel (h : Eased c c') :
    Option.Rel (fun d e : Date => e.day ≤ d.day) c.releaseDate? c'.releaseDate? := by
  have hcrd := h .crd (.inl rfl)
  have hard := h .ard (.inr rfl)
  unfold releaseDate?
  generalize c.date? .crd = crd, c'.date? .crd = crd' at hcrd
  cases hcrd with
  | none => exact hard
  | some hle => exact .some hle

theorem Eased.isSome_releaseDate? (h : Eased c c') :
    c.releaseDate?.isSome = c'.releaseDate?.isSome := by
  have hrel := h.releaseDate?_rel
  generalize c.releaseDate? = r, c'.releaseDate? = r' at hrel
  cases hrel <;> rfl

end UnitCalculation

/-- Removal applies to a unit under both assumptions or under neither. -/
theorem RemovalTerms.applies_eased {c c' : UnitCalculation}
    (htrack : standard.track? = some track) (htrack' : early.track? = some track')
    (htracks : track = track' ∨ track.isSds = true ∧ track'.isSds = true)
    (hrelease : UnitCalculation.Eased c c') :
    RemovalTerms.applies standard c = RemovalTerms.applies early c' := by
  unfold RemovalTerms.applies
  rw [htrack, htrack', hrelease.isSome_releaseDate?, Option.any_some, Option.any_some]
  rcases htracks with rfl | ⟨hsds, hsds'⟩
  · rfl
  · cases track <;> cases hsds <;> cases track' <;> cases hsds' <;> rfl

end Custody
