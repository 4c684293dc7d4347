import Custody.Proofs.Booking.PassOrder

/-!
# The order of the dates of a booking

Within a pass curfew and removal come before release, and release comes before expiry unless days
have been awarded. The merge takes each kind of date from either pass, or from the start of the
tranche, and leaves expiry where it is, so neither order carries over to the booking as it stands.

* **`release_le_eligibility_iff`**: when curfew or removal is not before release.
* **`release_le_expiry_iff`**: when release is not after expiry.
-/

namespace Custody

open Custody.Calendar

namespace Booking

variable {b : Booking} {inputs : Inputs} {o : Outcome}

/-! ## Before release -/

/-- Both passes have a release if either of them has a date before release. -/
theorem releases_of_isEligibility {config : Config} {standard early : Pass} {kind : DateKind}
    (hpoints : config.releasePoints.AreShort)
    (hfraction : config.releasePoints.fraction .sdsEarly
      ≤ config.releasePoints.fraction .sdsStandard)
    (hs : b.pass config inputs .standard = .ok standard)
    (he : b.pass config inputs .early = .ok early) (hkind : kind.IsEligibility)
    (hdate : standard.outcome.date? kind ≠ none ∨ early.outcome.date? kind ≠ none) :
    ∃ j s k e, standard.outcome.ReleasedOn j s ∧ early.outcome.ReleasedOn k e ∧ e.day ≤ s.day := by
  rcases releases_eased hpoints.areFractions hfraction hs he with hnone | hreleased
  · -- a date of eligibility has a release after it, so there is one in some pass
    rcases hdate with hdate | hdate
    · obtain ⟨d, hd⟩ := Option.ne_none_iff_exists'.mp hdate
      obtain ⟨j, s, hreleased, _⟩ := lt_release_of_isEligibility hs hkind hd
      have hsome := hreleased.date?_eq
      rw [(hnone j hreleased.1).1] at hsome
      cases hsome
    · obtain ⟨d, hd⟩ := Option.ne_none_iff_exists'.mp hdate
      obtain ⟨j, s, hreleased, _⟩ := lt_release_of_isEligibility he hkind hd
      have hsome := hreleased.date?_eq
      rw [(hnone j hreleased.1).2] at hsome
      cases hsome
  · exact hreleased

/-- **When curfew or removal is not before release.** Outside of the scheme it always is. In a
tranche it is not when the early pass has no such date from the start of the tranche on, and release
is no later than the date that takes its place: standard release is not after the start, or early
release, of the same kind, is after the start and not after the date. -/
theorem release_le_eligibility_iff {kind : DateKind} {d : Date} (hkind : kind.IsEligibility)
    (h : b.calculate EnglandAndWales.config inputs = .ok o) (hd : o.date? kind = some d) :
    ∃ standard early j s k e r,
      b.pass EnglandAndWales.config inputs .standard = .ok standard
      ∧ b.pass EnglandAndWales.config inputs .early = .ok early
      ∧ standard.outcome.ReleasedOn j s ∧ early.outcome.ReleasedOn k e
      ∧ o.latestRelease? = some r
      ∧ (r ≤ d ↔ ∃ commencement,
        EnglandAndWales.earlyRelease.commencement? o.tranche = some commencement
        ∧ (∀ x, early.outcome.date? kind = some x → x < commencement)
        ∧ (s ≤ commencement ∨ j = k ∧ commencement ≤ e ∧ e ≤ d)) := by
  obtain ⟨standard, early, tranche, hs, he, htranche, rfl⟩ := calculate_eq_ok h
  have hinStep := (pass_extracted he).inStep
  have hpasses : standard.outcome.date? kind ≠ none ∨ early.outcome.date? kind ≠ none := by
    by_contra hnot
    rw [not_or, not_not, not_not] at hnot
    rw [Outcome.date?_mergeEarly_eq_none hinStep hnot.1 hnot.2] at hd
    cases hd
  obtain ⟨j, s, k, e, hstandard, hearly, hle⟩ := releases_of_isEligibility
    EnglandAndWales.releasePoints_areShort EnglandAndWales.fraction_early_le hs he hkind hpasses
  obtain ⟨r, hr, hrelease⟩ := Outcome.exists_releaseOf hstandard hearly hinStep hle htranche
  have hbefore : ∀ x, standard.outcome.date? kind = some x → x.day < s.day := by
    intro x hx
    obtain ⟨_, s', hs', hlt⟩ := lt_release_of_isEligibility hs hkind hx
    rwa [hs'.unique hstandard] at hlt
  have hbefore' : ∀ x, early.outcome.date? kind = some x → x.day < e.day := by
    intro x hx
    obtain ⟨_, e', he', hlt⟩ := lt_release_of_isEligibility he hkind hx
    rwa [he'.unique hearly] at hlt
  refine ⟨standard, early, j, s, k, e, r, hs, he, hstandard, hearly, hr, ?_⟩
  rw [Outcome.tranche_mergeEarly]
  cases hstart : EnglandAndWales.earlyRelease.commencement? tranche with
  | none =>
    -- the dates are those of the standard pass
    have hstart' : EnglandAndWales.config.earlyRelease.commencement? tranche = none := hstart
    rw [Outcome.mergeEarly_of_none hstart'] at hd hr
    have hlt := hbefore d hd
    cases hstandard.latestRelease?_eq.symm.trans hr
    simp only [reduceCtorEq, false_and, exists_false, iff_false, Date.le_iff]
    omega
  | some commencement =>
    rw [Outcome.date?_mergeEarly hinStep hkind.mem_earlyReleaseSensitive hstart] at hd
    have hiff := hrelease.le_mergedDate_iff hle hstart hd hbefore hbefore'
    simp only [Option.some.injEq, exists_eq_left']
    exact hiff

/-- Two hundred days from 5 September 2024, of which 74 have been served on remand. -/
def servedOnRemand : Booking :=
  sideBySide [.onLine 1 (EnglandAndWales.on 2024 9 5) (.determinate (Duration.of .days 200))]
    (Adjustments.empty.add .remand { days := 74 })

theorem servedOnRemand_dates :
    ∃ o, servedOnRemand.calculate EnglandAndWales.config {} = .ok o
      ∧ o.latestRelease? = some (EnglandAndWales.on 2024 9 10)
      ∧ o.date? .hdced = some (EnglandAndWales.on 2024 9 19) := by
  have heval : (fun o : Outcome => (o.latestRelease?, o.date? .hdced))
        <$> servedOnRemand.calculate EnglandAndWales.config {}
      = .ok (some (EnglandAndWales.on 2024 9 10), some (EnglandAndWales.on 2024 9 19)) := by
    decide +kernel
  obtain ⟨o, ho, hdates⟩ := Answered.map_eq_ok.mp heval
  exact ⟨o, ho, Prod.ext_iff.mp hdates⟩

/-- Early release is on the first day of the scheme, before the standard date of curfew. -/
theorem release_le_eligibility_iff_servedOnRemand :
    ∃ o standard early j s k e,
      servedOnRemand.calculate EnglandAndWales.config {} = .ok o
      ∧ servedOnRemand.pass EnglandAndWales.config {} .standard = .ok standard
      ∧ servedOnRemand.pass EnglandAndWales.config {} .early = .ok early
      ∧ standard.outcome.ReleasedOn j s ∧ early.outcome.ReleasedOn k e
      ∧ o.latestRelease? = some (EnglandAndWales.on 2024 9 10)
      ∧ o.date? .hdced = some (EnglandAndWales.on 2024 9 19)
      ∧ ∃ commencement,
        EnglandAndWales.earlyRelease.commencement? o.tranche = some commencement
        ∧ (∀ x, early.outcome.date? .hdced = some x → x < commencement)
        ∧ (s ≤ commencement ∨ j = k ∧ commencement ≤ e ∧ e ≤ EnglandAndWales.on 2024 9 19) := by
  obtain ⟨o, ho, hr, hd⟩ := servedOnRemand_dates
  obtain ⟨standard, early, j, s, k, e, r, hs, he, hS, hE, hr', hiff⟩ :=
    release_le_eligibility_iff (.inl rfl) ho hd
  rw [hr] at hr'
  cases hr'
  exact ⟨o, standard, early, j, s, k, e, ho, hs, he, hS, hE, hr, hd, hiff.mp (by decide)⟩

/-- Curfew may be behind release. -/
theorem not_eligibility_lt_release :
    ¬ ∀ (b : Booking) (inputs : Inputs) (o : Outcome) (kind : DateKind) (d r : Date),
      b.calculate EnglandAndWales.config inputs = .ok o → kind.IsEligibility →
      o.date? kind = some d → o.latestRelease? = some r → d < r := by
  intro hlt
  obtain ⟨o, ho, hr, hd⟩ := servedOnRemand_dates
  exact absurd (hlt servedOnRemand {} o .hdced _ _ ho (.inl rfl) hd hr) (by decide)

end Booking

/-! ## Before expiry -/

namespace Booking

variable {b : Booking} {inputs : Inputs} {o : Outcome}

theorem release_le_expiry_of_pass {config : Config} {assumption : Assumption} {p : Pass}
    (hpoints : config.releasePoints.AreShort) (h : b.pass config inputs assumption = .ok p)
    (hawarded : b.adjustments.entries .additionalDaysAwarded = []) {j : DateKind} {r : Date}
    (hr : p.outcome.ReleasedOn j r) : ∃ x, p.outcome.expiryDate? = some x ∧ r.day ≤ x.day := by
  refine release_le_expiry hpoints h (fun e he => ?_) hr.releaseDate?_eq
  rw [hawarded] at he
  exact absurd he List.not_mem_nil

/-- **When release is not after expiry**, for a booking that no days have been awarded on. Only the
start of the second tranche can put release behind expiry, which does not move with it. -/
theorem release_le_expiry_iff {r : Date}
    (h : b.calculate EnglandAndWales.config inputs = .ok o)
    (hawarded : b.adjustments.entries .additionalDaysAwarded = [])
    (hr : o.latestRelease? = some r) :
    ∃ x, o.expiryDate? = some x ∧ (r ≤ x ↔
      (o.tranche = .tranche2 → EnglandAndWales.earlyRelease.trancheTwoCommencement ≤ x)) := by
  obtain ⟨standard, _, _, s, _, _, hs, _, hstandard, _, hle, hexpiry, hrelease⟩ :=
    exists_releaseOf_of_calculate EnglandAndWales.releasePoints_areShort
      EnglandAndWales.fraction_early_le h hr
  obtain ⟨x, hx, hsx⟩ := release_le_expiry_of_pass EnglandAndWales.releasePoints_areShort hs
    hawarded hstandard
  exact ⟨x, hexpiry.trans hx, hrelease.le_iff hle hsx⟩

/-- Five years from 15 September 2024, all of which has been served on remand. -/
def servedInFull : Booking :=
  sideBySide [.onLine 1 (EnglandAndWales.on 2024 9 15) (.determinate (Duration.of .years 5))]
    (Adjustments.empty.add .remand { days := 1826 })

theorem servedInFull_dates :
    ∃ o, servedInFull.calculate EnglandAndWales.config {} = .ok o
      ∧ o.latestRelease? = some (EnglandAndWales.on 2024 10 22)
      ∧ o.expiryDate? = some (EnglandAndWales.on 2024 9 15) := by
  have heval : (fun o : Outcome => (o.latestRelease?, o.expiryDate?))
        <$> servedInFull.calculate EnglandAndWales.config {}
      = .ok (some (EnglandAndWales.on 2024 10 22), some (EnglandAndWales.on 2024 9 15)) := by
    decide +kernel
  obtain ⟨o, ho, hdates⟩ := Answered.map_eq_ok.mp heval
  exact ⟨o, ho, Prod.ext_iff.mp hdates⟩

/-- Release is held for five weeks after the sentence has expired. -/
theorem release_le_expiry_iff_servedInFull :
    ∃ o, servedInFull.calculate EnglandAndWales.config {} = .ok o
      ∧ servedInFull.adjustments.entries .additionalDaysAwarded = []
      ∧ o.latestRelease? = some (EnglandAndWales.on 2024 10 22)
      ∧ o.expiryDate? = some (EnglandAndWales.on 2024 9 15)
      ∧ ∃ x, o.expiryDate? = some x ∧ (EnglandAndWales.on 2024 10 22 ≤ x ↔
        (o.tranche = .tranche2 → EnglandAndWales.earlyRelease.trancheTwoCommencement ≤ x)) := by
  obtain ⟨o, ho, hr, hx⟩ := servedInFull_dates
  have hawarded : servedInFull.adjustments.entries .additionalDaysAwarded = [] := rfl
  exact ⟨o, ho, hawarded, hr, hx, release_le_expiry_iff ho hawarded hr⟩

/-- Release may be after expiry though no days have been awarded. -/
theorem not_release_le_expiry :
    ¬ ∀ (b : Booking) (inputs : Inputs) (o : Outcome) (r x : Date),
      b.calculate EnglandAndWales.config inputs = .ok o →
      b.adjustments.entries .additionalDaysAwarded = [] →
      o.latestRelease? = some r → o.expiryDate? = some x → r ≤ x := by
  intro hle
  obtain ⟨o, ho, hr, hx⟩ := servedInFull_dates
  exact absurd (hle servedInFull {} o _ _ ho rfl hr hx) (by decide)

end Booking

end Custody
