import Custody.Proofs.Booking.MergedRelease
import Custody.Proofs.Outcome.Order
import Custody.Proofs.Unit.Curfew

/-!
# The order of the dates within a pass

The units of a pass have their dates in order, and the dates of the pass are the latest of theirs,
put back to the release of other units or left out where that would not make sense. So the dates of
the pass are in order, and of the two variants of curfew it has one at most.

* **`release_le_expiry`**: release is not after expiry where no days have been awarded.
* **`pass_datesInOrder`**: the order of the dates of a pass.
* **`one_curfew`**: one variant of curfew for each unit, and one for the pass.
-/

namespace Custody

open Custody.Calendar

/-! ## Release and expiry -/

/-- Where no days have been awarded there is nothing to put release back by. -/
theorem Adjustments.releaseExtensionDays_eq_zero {a : Adjustments} {unit : Sentence}
    {applied : AppliedAdjustments} (h : a.appliedTo unit = .ok applied)
    (hawarded : ∀ e ∈ a.entries .additionalDaysAwarded, e.days = 0) :
    applied.releaseExtensionDays = 0 := by
  simp only [appliedTo, Answered.bind_eq_ok, Answered.pure_eq_ok] at h
  obtain ⟨sentencedAt, _, rfl⟩ := h
  -- awarded days are the one type that puts release back
  have hextension : a.totalWith .releaseExtension sentencedAt unit.sequences = 0 := by
    have htypes : typesWith .releaseExtension = [.additionalDaysAwarded] := rfl
    rw [totalWith, htypes, totalOf_cons, totalOf_nil, totalDays, Int.add_zero]
    refine totalOf_eq_zero fun e he => ?_
    rw [hawarded e (List.mem_of_mem_filter he)]
    rfl
  have hrestoration : 0 ≤ a.totalWith .releaseRestoration sentencedAt unit.sequences := by
    refine totalOf_nonneg fun type _ => totalOf_nonneg fun entry _ => ?_
    exact Int.natCast_nonneg _
  simp only [hextension]
  omega

namespace Booking

variable {config : Config} {inputs : Inputs} {assumption : Assumption} {b : Booking} {p : Pass}

/-- **Release is not after expiry within a pass**, when no days have been awarded. The unit that is
released last does not expire before, and the booking does not expire before the unit. -/
theorem release_le_expiry (hpoints : config.releasePoints.AreShort)
    (h : b.pass config inputs assumption = .ok p)
    (hawarded : ∀ e ∈ b.adjustments.entries .additionalDaysAwarded, e.days = 0) {r : Date}
    (hr : p.outcome.releaseDate? = some r) :
    ∃ x, p.outcome.expiryDate? = some x ∧ r.day ≤ x.day := by
  have hextracted := pass_extracted h
  have hunits := inStep_of_mem_calculations h
  obtain ⟨x, hlatest, hexpiry⟩ := hextracted.expiry
  refine ⟨x.releaseDate, hexpiry, ?_⟩
  rcases hextracted.release with ⟨_, hnone⟩ | ⟨kind, released, hrelease, hreleased⟩
  · unfold Outcome.releaseDate? at hr
    rw [hnone .crd (.inl rfl), hnone .ard (.inr rfl)] at hr
    cases hr
  · rw [hreleased.releaseDate?_eq] at hr
    cases hr
    -- `c` is released last, `y` is when it expires and `x` when the booking does
    obtain ⟨hkind, ⟨c, hc, hdate⟩, _⟩ := Outcome.release?_isLatest hunits hrelease
    obtain ⟨_, _, _, _, hcalculated⟩ := exists_of_mem_calculations h hc
    obtain ⟨_, _, _, m, happlied, _, hm, hdated, _⟩ := calculateUnit_dated hcalculated
    have hday := hdated.day_of_release hkind hdate
    have hdays := hm.adjustedReleaseDays_le hpoints
      (Adjustments.releaseExtensionDays_eq_zero happlied hawarded) (Date.count_le_of_day_eq hday)
    obtain ⟨y, hy, hydate⟩ := hdated.expiryDate_eq
    have hle := (Outcome.latest?_isLatest hunits hlatest).2 c hc y hydate
    omega

/-! ## The order of the dates -/

theorem inOrder_of_mem_calculations (hpoints : config.releasePoints.AreShort)
    (hparole : config.releasePoints.ParoleFirst) (h : b.pass config inputs assumption = .ok p) :
    ∀ c ∈ p.calculations, c.InOrder := by
  intro c hc
  obtain ⟨_, _, hcovered, hof, hcalculated⟩ := exists_of_mem_calculations h hc
  exact calculateUnit_inOrder hpoints hparole hof.classified hcovered hcalculated

/-- **The dates of a pass are in order.** Where no days have been awarded release is not after
expiry either. -/
theorem pass_datesInOrder (h : b.pass EnglandAndWales.config inputs assumption = .ok p) :
    p.outcome.DatesInOrder
      ∧ ((∀ e ∈ b.adjustments.entries .additionalDaysAwarded, e.days = 0) →
        ∀ r, p.outcome.releaseDate? = some r → ∃ x, p.outcome.expiryDate? = some x ∧ r ≤ x) := by
  have hunits := inStep_of_mem_calculations h
  have hinOrder := inOrder_of_mem_calculations EnglandAndWales.releasePoints_areShort
    EnglandAndWales.releasePoints_paroleFirst h
  have houtcome := ofUnits_of_pass h
  have hordered : p.outcome.DatesInOrder := {
    oneExpiry := Outcome.one_expiry houtcome
    licence := fun d hd =>
      Outcome.licence_lt_expiry hunits (fun c hc => (hinOrder c hc).licence) houtcome hd
    oneRelease := (pass_extracted h).one_release
    parole := fun d hd => Outcome.parole_le_release hunits hinOrder houtcome hd
    afterRecall := fun d hd => Outcome.afterRecall_le_expiry hunits hinOrder houtcome hd
    eligibility := by
      intro kind hkind d hd
      obtain ⟨_, r, hreleased, hlt⟩ := lt_release_of_isEligibility h hkind hd
      exact ⟨r, hreleased.releaseDate?_eq, hlt⟩
    supervision := fun d hd => Outcome.expiry_lt_supervision houtcome hd }
  refine ⟨hordered, fun hawarded r hr => ?_⟩
  exact release_le_expiry EnglandAndWales.releasePoints_areShort h hawarded hr

/-- Twenty months on line 1, and 90 days for a breach that are not over when the months are. -/
def breachBeyondSentence : Booking :=
  sideBySide [.onLine 1 (EnglandAndWales.on 2023 1 10) (.determinate (Duration.of .months 20)),
    .onLine 2 (EnglandAndWales.on 2024 8 5) (.botus (Duration.of .days 90))] .empty

/-- The licence of the sentence ends first, then the breach, and then supervision after release. -/
theorem pass_datesInOrder_breach :
    ∃ p, breachBeyondSentence.pass EnglandAndWales.config {} .standard = .ok p
      ∧ p.outcome.date? .led = some (EnglandAndWales.on 2024 9 9)
      ∧ p.outcome.date? .sed = some (EnglandAndWales.on 2024 11 2)
      ∧ p.outcome.date? .tused = some (EnglandAndWales.on 2024 11 8)
      ∧ p.outcome.releaseDate? = some (EnglandAndWales.on 2024 11 2)
      ∧ p.outcome.DatesInOrder
      ∧ ∃ x, p.outcome.expiryDate? = some x ∧ EnglandAndWales.on 2024 11 2 ≤ x := by
  have heval : (fun p : Pass => (p.outcome.date? .led, p.outcome.date? .sed,
        p.outcome.date? .tused, p.outcome.releaseDate?))
        <$> breachBeyondSentence.pass EnglandAndWales.config {} .standard
      = .ok (some (EnglandAndWales.on 2024 9 9), some (EnglandAndWales.on 2024 11 2),
        some (EnglandAndWales.on 2024 11 8), some (EnglandAndWales.on 2024 11 2)) := by
    simp only [pass, timeline_eq_insertionSort]
    decide +kernel
  obtain ⟨p, hp, hdates⟩ := Answered.map_eq_ok.mp heval
  simp only [Prod.mk.injEq] at hdates
  obtain ⟨hled, hsed, htused, hrelease⟩ := hdates
  obtain ⟨hinOrder, hexpiry⟩ := pass_datesInOrder hp
  refine ⟨p, hp, hled, hsed, htused, hrelease, hinOrder, hexpiry (fun e he => ?_) _ hrelease⟩
  exact absurd he List.not_mem_nil

/-! ## Curfew -/

/-- **A pass has one variant of curfew at most**, however many units have either. The unit that is
released last does not have one of them, and so the pass does not. -/
theorem one_curfew_of_pass (hadjoin : config.hdced.Adjoin config.hdced4plus)
    (h : b.pass config inputs assumption = .ok p) :
    p.outcome.date? .hdced = none ∨ p.outcome.date? .hdced4plus = none := by
  have hunits := inStep_of_mem_calculations h
  have houtcome := ofUnits_of_pass h
  rcases (pass_extracted h).release with ⟨_, hnone⟩ | ⟨kind, r, hrelease, _⟩
  · -- without a release there is no curfew at all
    left
    by_contra hdate
    obtain ⟨d, hd⟩ := Option.ne_none_iff_exists'.mp hdate
    obtain ⟨j, e, hreleased, _⟩ := lt_release_of_isEligibility h (.inl rfl) hd
    have hsome := hreleased.date?_eq
    rw [hnone j hreleased.1] at hsome
    cases hsome
  · obtain ⟨hkind, ⟨c, hc, hdate⟩, _⟩ := Outcome.release?_isLatest hunits hrelease
    obtain ⟨_, _, _, _, hcalculated⟩ := exists_of_mem_calculations h hc
    obtain ⟨_, _, _, _, _, _, _, hdated, _⟩ := calculateUnit_dated hcalculated
    have hlast := hdated.releaseDate?_eq hkind hdate
    have hlacks (variant : Curfew) (hnone : c.date? variant.kind = none) :
        p.outcome.date? variant.kind = none :=
      Outcome.curfew_eq_none hunits houtcome hrelease hc hlast hnone
    rcases one_curfew_of_adjoin hadjoin hcalculated with hnone | hnone
    · exact .inl (hlacks .hdced hnone)
    · exact .inr (hlacks .hdced4plus hnone)

/-- **One variant of curfew**, for each unit of a pass and for the pass. -/
theorem one_curfew (h : b.pass EnglandAndWales.config inputs assumption = .ok p) :
    (∀ c ∈ p.calculations, c.date? .hdced = none ∨ c.date? .hdced4plus = none)
      ∧ (p.outcome.date? .hdced = none ∨ p.outcome.date? .hdced4plus = none) := by
  refine ⟨fun c hc => ?_, one_curfew_of_pass EnglandAndWales.curfews_adjoin h⟩
  obtain ⟨_, _, _, _, hcalculated⟩ := exists_of_mem_calculations h hc
  exact one_curfew_of_adjoin EnglandAndWales.curfews_adjoin hcalculated

/-- Two years and five years from the same day. -/
def twoAndFiveYears : Booking :=
  sideBySide [.onLine 1 (EnglandAndWales.on 2024 3 4) (.determinate (Duration.of .years 2)),
    .onLine 2 (EnglandAndWales.on 2024 3 4) (.determinate (Duration.of .years 5))] .empty

/-- Under early release each of them has a variant of its own, and the booking that of the five
years. -/
theorem one_curfew_twoAndFiveYears :
    ∃ p, twoAndFiveYears.pass EnglandAndWales.config {} .early = .ok p
      ∧ p.calculations.map (fun c => (c.date? .hdced, c.date? .hdced4plus))
        = [(some (EnglandAndWales.on 2024 9 3), none), (none, some (EnglandAndWales.on 2025 9 6))]
      ∧ p.outcome.date? .hdced4plus = some (EnglandAndWales.on 2025 9 6)
      ∧ (∀ c ∈ p.calculations, c.date? .hdced = none ∨ c.date? .hdced4plus = none)
      ∧ (p.outcome.date? .hdced = none ∨ p.outcome.date? .hdced4plus = none) := by
  have heval : (fun p : Pass =>
        (p.calculations.map (fun c => (c.date? .hdced, c.date? .hdced4plus)),
        p.outcome.date? .hdced4plus))
        <$> twoAndFiveYears.pass EnglandAndWales.config {} .early
      = .ok ([(some (EnglandAndWales.on 2024 9 3), none),
        (none, some (EnglandAndWales.on 2025 9 6))], some (EnglandAndWales.on 2025 9 6)) := by
    simp only [pass, timeline_eq_insertionSort]
    decide +kernel
  obtain ⟨p, hp, hdates⟩ := Answered.map_eq_ok.mp heval
  obtain ⟨hunits, hdate⟩ := Prod.ext_iff.mp hdates
  exact ⟨p, hp, hunits, hdate, one_curfew hp⟩

end Booking

end Custody
