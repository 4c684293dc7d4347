import Custody.Proofs.Booking.MergedRelease
import Custody.Proofs.Unit.Adjusted

/-!
# Additional days

Days that are awarded in addition put release back, and leave expiry and what is worked out from the
sentence alone where they are. Curfew and supervision are counted from release without such days, so
of the dates of schemes only removal, which is counted back from release, moves with them.
Supervision may come and go with them, since the age at release decides on it.

* **`UnitCalculation.AgreeButAwards`**: the counts that awarded days do not move.
* **`Booking.awards_move_release_only`**: what awarded days move.
-/

namespace Custody

open Custody.Calendar

/-- Release, what is counted from release, and supervision, for which the age at release counts. -/
def DateKind.awardSensitive : List DateKind := [.crd, .ard, .ped, .ersed, .tused]

/-! ## Counts -/

/-- Two calculations with the same counts of days, but for days that were awarded. -/
structure UnitCalculation.AgreeButAwards (c c' : UnitCalculation) : Prop where
  sentencedAt : c.sentencedAt = c'.sentencedAt
  expiryDays : c.expiryDays = c'.expiryDays
  releaseDays : c.releaseDays = c'.releaseDays
  botusDaysFirst : c.botusDaysFirst = c'.botusDaysFirst
  custodyDays : c.adjustments.custodyDays = c'.adjustments.custodyDays
  adjustedExpiryDays : c.adjustedExpiryDays = c'.adjustedExpiryDays
  hasLicence : c.hasLicence = c'.hasLicence

variable {config : Config} {offender : Offender} {unit : Sentence} {c c' : UnitCalculation}

/-- The dates of a unit do not change its counts. -/
theorem UnitCalculation.AgreeButAwards.of_undated {m m' : UnitCalculation}
    (h : m.AgreeButAwards m') (hc : c.undated = m.undated) (hc' : c'.undated = m'.undated) :
    c.AgreeButAwards c' := by
  have hundated : c.undated.AgreeButAwards c'.undated := by
    rw [hc, hc']
    exact { h with }
  exact { hundated with }

namespace Eligibility

/-- Curfew is worked out without the days that were awarded. -/
theorem date?_curfew_eq (h : c.AgreeButAwards c') (variant : Curfew) :
    (curfew variant).date? config offender unit c
      = (curfew variant).date? config offender unit c' := by
  have happlies : (curfew variant).applies config offender unit c
      = (curfew variant).applies config offender unit c' := by
    unfold applies CurfewTerms.applies
    rw [h.sentencedAt, h.expiryDays, h.botusDaysFirst]
  have hdate : (curfew variant).date config c c.botusDaysFirst
      = (curfew variant).date config c' c'.botusDaysFirst := by
    unfold date CurfewTerms.date CurfewTerms.undelayed
    rw [h.sentencedAt, h.expiryDays, h.releaseDays, h.botusDaysFirst, h.custodyDays]
  unfold date?
  rw [happlies, hdate]

/-- Where supervision ends is worked out without the days that were awarded. -/
theorem date_supervision_eq (h : c.AgreeButAwards c') :
    supervision.date config c c.botusDaysFirst = supervision.date config c' c'.botusDaysFirst := by
  unfold date SupervisionTerms.date
  rw [h.sentencedAt, h.releaseDays, h.custodyDays]

end Eligibility

/-! ## The dates that a unit starts with -/

namespace Sentence

variable {adjustments adjustments' : AppliedAdjustments} {returned : Option Date} {track : Track}

theorem measure_agreeButAwards {m m' : UnitCalculation}
    (hcustody : adjustments.custodyDays = adjustments'.custodyDays)
    (h : unit.measure config adjustments track = .ok m)
    (h' : unit.measure config adjustments' track = .ok m') : m.AgreeButAwards m' := by
  -- all but the adjustments comes from the unit
  cases (measure_readjusted h adjustments').symm.trans h'
  obtain ⟨_, hm⟩ := measure_measured h
  refine ⟨rfl, rfl, rfl, rfl, ?_, ?_, rfl⟩
  · rw [hm.adjustments_eq]
    exact hcustody
  · rw [hm.adjustedExpiryDays, hcustody]
    rfl

theorem calculate_agreeButAwards (hcustody : adjustments.custodyDays = adjustments'.custodyDays)
    (h : unit.calculate config adjustments returned = .ok c)
    (h' : unit.calculate config adjustments' returned = .ok c') :
    c.AgreeButAwards c' ∧ UnitCalculation.Agree c c' := by
  constructor
  · obtain ⟨track, m, htrack, hm, hundated⟩ := calculate_undated h
    obtain ⟨track', m', htrack', hm', hundated'⟩ := calculate_undated h'
    cases Option.some.inj (htrack.symm.trans htrack')
    exact (measure_agreeButAwards hcustody hm hm').of_undated hundated hundated'
  · refine agree_of_measure rfl ?_ h h'
    intro track track' m m' htrack htrack' hm hm'
    cases Option.some.inj (htrack.symm.trans htrack')
    have hcounts := measure_agreeButAwards hcustody hm hm'
    exact ⟨Iff.rfl, hcounts.sentencedAt, hcounts.expiryDays, hcounts.adjustedExpiryDays,
      hcounts.hasLicence⟩

end Sentence

/-! ## All dates of a unit -/

theorem DateKind.curfew_or_of_notMem_awardSensitive {kind : DateKind}
    (hkind : kind ∉ awardSensitive) :
    (∃ variant : Curfew, variant.kind = kind)
      ∨ kind ∉ earlyReleaseSensitive ∧ ∀ e : Eligibility, e.kind ≠ kind := by
  by_cases hmem : kind ∈ earlyReleaseSensitive
  · have hcurfew : kind = .hdced ∨ kind = .hdced4plus := by
      revert hkind hmem
      cases kind <;> decide
    rcases hcurfew with rfl | rfl
    · exact .inl ⟨.hdced, rfl⟩
    · exact .inl ⟨.hdced4plus, rfl⟩
  · refine .inr ⟨hmem, fun e heq => hmem ?_⟩
    exact heq ▸ e.kind_mem

namespace Booking

/-- **Days that are awarded in addition move release and what is counted from it**, and no other
date, nor supervision as long as there is any. -/
theorem awards_move_release_only {inputs : Inputs} {returned : Option Date}
    (adjustments : AppliedAdjustments) (days days' : Int)
    (h : unit.calculate config { adjustments with releaseExtensionDays := days } returned
      >>= (recordSchemes config offender unit · (schemes inputs)) = .ok c)
    (h' : unit.calculate config { adjustments with releaseExtensionDays := days' } returned
      >>= (recordSchemes config offender unit · (schemes inputs)) = .ok c') :
    (∀ kind ∉ DateKind.awardSensitive, c.date? kind = c'.date? kind
      ∧ c.breakdowns.get? kind = c'.breakdowns.get? kind)
    ∧ (c.date? .tused ≠ none → c'.date? .tused ≠ none → c.date? .tused = c'.date? .tused
      ∧ c.breakdowns.get? .tused = c'.breakdowns.get? .tused) := by
  obtain ⟨start, hstart, h⟩ := Answered.bind_eq_ok.mp h
  obtain ⟨start', hstart', h'⟩ := Answered.bind_eq_ok.mp h'
  obtain ⟨hcounts, hagree⟩ := Sentence.calculate_agreeButAwards (by rfl) hstart hstart'
  obtain ⟨hstep, hnone⟩ := Sentence.inStep_of_calculate hstart
  obtain ⟨hstep', hnone'⟩ := Sentence.inStep_of_calculate hstart'
  have hrun := recordSchemes_schemed (nodup_schemes inputs) hstep h
  have hrun' := recordSchemes_schemed (nodup_schemes inputs) hstep' h'
  -- dates are those of their breakdowns
  have hdate {kind : DateKind} (hbreakdown : c.breakdowns.get? kind = c'.breakdowns.get? kind) :
      c.date? kind = c'.date? kind ∧ c.breakdowns.get? kind = c'.breakdowns.get? kind := by
    refine ⟨?_, hbreakdown⟩
    rw [(hrun.inStep hstep).date?_eq, (hrun'.inStep hstep').date?_eq, hbreakdown]
  constructor
  · intro kind hkind
    refine hdate ?_
    rcases DateKind.curfew_or_of_notMem_awardSensitive hkind with ⟨variant, rfl⟩ | ⟨hmem, hother⟩
    · have hcurfew := curfew_mem_schemes inputs variant
      have hgiven := hrun.date?_eq hcurfew (hnone _)
      rw [Eligibility.date?_curfew_eq hcounts, hrun'.date?_eq hcurfew (hnone' _)] at hgiven
      exact (Except.ok.inj hgiven).symm
    · rw [hrun.others kind fun e _ => hother e, hrun'.others kind fun e _ => hother e]
      exact hagree.breakdown kind hmem
  · intro hsome hsome'
    refine hdate ?_
    rw [(hrun.inStep hstep).date?_eq, ne_eq, Option.map_eq_none_iff] at hsome
    rw [(hrun'.inStep hstep').date?_eq, ne_eq, Option.map_eq_none_iff] at hsome'
    obtain ⟨b, hb⟩ := Option.ne_none_iff_exists'.mp hsome
    obtain ⟨b', hb'⟩ := Option.ne_none_iff_exists'.mp hsome'
    have hmem := supervision_mem_schemes inputs
    have hend := (Eligibility.date?_eq_ok (hrun.date?_eq hmem (hnone _))).2 b hb
    have hend' := (Eligibility.date?_eq_ok (hrun'.date?_eq hmem (hnone' _))).2 b' hb'
    rw [Eligibility.date_supervision_eq hcounts, hend'] at hend
    rw [hb, hb', Except.ok.inj hend]

/-- Eighteen months from 24 March 2022, on the standard track. -/
def eighteenMonths : Sentence :=
  .single { Single.onLine 1 sentencingDay
    (.determinate (Duration.of .months 18)) with track := some .sdsStandard }

/-- Thirty days put release back by as many, and neither curfew nor supervision. -/
theorem awards_move_release_only_eighteenMonths :
    ∃ c c', eighteenMonths.calculate EnglandAndWales.config {} none
        >>= (recordSchemes EnglandAndWales.config fiveYears.offender eighteenMonths ·
          (schemes {})) = .ok c
      ∧ eighteenMonths.calculate EnglandAndWales.config { releaseExtensionDays := 30 } none
        >>= (recordSchemes EnglandAndWales.config fiveYears.offender eighteenMonths ·
          (schemes {})) = .ok c'
      ∧ c.date? .crd = some (EnglandAndWales.on 2022 12 23)
      ∧ c'.date? .crd = some (EnglandAndWales.on 2023 1 22)
      ∧ c'.date? .hdced = some (EnglandAndWales.on 2022 8 9)
      ∧ c'.date? .hdced = c.date? .hdced
      ∧ c'.breakdowns.get? .tused = c.breakdowns.get? .tused := by
  have heval : (fun c => (c.date? .crd, (c.date? .tused).isSome))
      <$> (eighteenMonths.calculate EnglandAndWales.config {} none
        >>= (recordSchemes EnglandAndWales.config fiveYears.offender eighteenMonths ·
          (schemes {})))
      = .ok (some (EnglandAndWales.on 2022 12 23), true) := by decide +kernel
  have heval' : (fun c => (c.date? .crd, c.date? .hdced, (c.date? .tused).isSome))
      <$> (eighteenMonths.calculate EnglandAndWales.config { releaseExtensionDays := 30 } none
        >>= (recordSchemes EnglandAndWales.config fiveYears.offender eighteenMonths ·
          (schemes {})))
      = .ok (some (EnglandAndWales.on 2023 1 22), some (EnglandAndWales.on 2022 8 9), true) := by
    decide +kernel
  obtain ⟨c, hc, hdates⟩ := Answered.map_eq_ok.mp heval
  obtain ⟨c', hc', hdates'⟩ := Answered.map_eq_ok.mp heval'
  simp only [Prod.mk.injEq] at hdates hdates'
  have hmoves := awards_move_release_only {} 30 0 hc' hc
  refine ⟨c, c', hc, hc', hdates.1, hdates'.1, hdates'.2.1, (hmoves.1 .hdced (by decide)).1, ?_⟩
  exact (hmoves.2 (Option.isSome_iff_ne_none.mp hdates'.2.2)
    (Option.isSome_iff_ne_none.mp hdates.2)).2

end Booking

end Custody
