import Custody.Proofs.Booking.Passes

/-!
# The release of a booking

The release of a booking against that of its two passes. The merge goes one kind of date at a time
and holds dates until the tranche of the booking starts, while the tranche is decided on by the
start of the first one alone. So early release may put release back, to the start of the second
tranche, and a booking may have release of both kinds, when its passes keep different ones.

* **`release_delayed_iff`**: when release is later than without early release.
* **`released_in_both_ways_iff`**: when there is release on licence and without.
-/

namespace Custody

open Custody.Calendar

/-! ## Bookings to look at -/

/-- The day on which the sentences to look at are passed where no other is called for. -/
def sentencingDay : Date := EnglandAndWales.on 2022 3 24

/-- A sentence on a line of its own, for an offence of the first day of 2022 of which nothing more
is known. -/
def Single.onLine (line : UInt32) (sentencedAt : Date) (term : Term) : Single where
  identifier := ⟨.replicate 32 (Fin.ofNat 16 line.toNat)⟩
  caseSequence := 1
  lineSequence := line
  sentencedAt := sentencedAt
  offence := { committedAt := EnglandAndWales.on 2022 1 1, code := "TH68010", marks := {} }
  recallType := .notRecalled
  consecutiveTo := none
  track := none
  term := term

/-- A standard determinate sentence that nothing is left out of early release for. -/
def Term.determinate (duration : Duration) : Term :=
  .standard { duration, isSdsPlus := false, isSection250 := false, exclusion := .notExcluded }

/-- A booking of sentences that are served side by side. -/
def Booking.sideBySide (singles : List Single) (adjustments : Adjustments) : Booking where
  bookingId := 1
  offender := { reference := "A1234BC", dateOfBirth := none, isActiveSexOffender := false }
  sentences := singles.map .single
  adjustments := adjustments
  returnToCustody := none

namespace Booking

variable {b : Booking} {inputs : Inputs} {o : Outcome}

/-- Where a booking is released, both passes are, and its release follows from theirs. -/
theorem exists_releaseOf_of_calculate {config : Config} {r : Date}
    (hpoints : config.releasePoints.AreShort)
    (hfraction : config.releasePoints.fraction .sdsEarly
      ≤ config.releasePoints.fraction .sdsStandard)
    (h : b.calculate config inputs = .ok o) (hr : o.latestRelease? = some r) :
    ∃ standard early j s k e, b.pass config inputs .standard = .ok standard
      ∧ b.pass config inputs .early = .ok early
      ∧ standard.outcome.ReleasedOn j s ∧ early.outcome.ReleasedOn k e ∧ e.day ≤ s.day
      ∧ o.expiryDate? = standard.outcome.expiryDate?
      ∧ Outcome.ReleaseOf config o.tranche (j = k) s e r := by
  obtain ⟨standard, early, tranche, hs, he, htranche, rfl⟩ := calculate_eq_ok h
  have hinStep := (pass_extracted he).inStep
  rcases releases_eased hpoints.areFractions hfraction hs he with
    hnone | ⟨j, s, k, e, hstandard, hearly, hle⟩
  · rw [Outcome.latestRelease?_mergeEarly_eq_none hinStep hnone] at hr
    cases hr
  · obtain ⟨r', hr', hrelease⟩ := Outcome.exists_releaseOf hstandard hearly hinStep hle htranche
    rw [hr] at hr'
    cases hr'
    rw [Outcome.tranche_mergeEarly, Outcome.expiryDate?_mergeEarly]
    exact ⟨standard, early, j, s, k, e, hs, he, hstandard, hearly, hle, rfl, hrelease⟩

/-! ## Early release and delay -/

/-- **When early release delays release.** Release of the booking is later than under the standard
assumption in the second tranche alone, when standard release is before the second tranche starts,
and then it is on that day. -/
theorem release_delayed_iff {r : Date}
    (h : b.calculate EnglandAndWales.config inputs = .ok o) (hr : o.latestRelease? = some r) :
    ∃ standard s, b.pass EnglandAndWales.config inputs .standard = .ok standard
      ∧ standard.outcome.releaseDate? = some s
      ∧ (s < r ↔ o.tranche = .tranche2
        ∧ EnglandAndWales.earlyRelease.trancheOneCommencement ≤ s
        ∧ s < EnglandAndWales.earlyRelease.trancheTwoCommencement)
      ∧ (s < r → r = EnglandAndWales.earlyRelease.trancheTwoCommencement) := by
  obtain ⟨standard, _, _, s, _, _, hs, _, hstandard, _, hle, _, hrelease⟩ :=
    exists_releaseOf_of_calculate EnglandAndWales.releasePoints_areShort
      EnglandAndWales.fraction_early_le h hr
  exact ⟨standard, s, hs, hstandard.releaseDate?_eq, hrelease.lt_iff hle, hrelease.eq_of_lt hle⟩

/-- Five years from 24 March 2022, with standard release on 21 September 2024. -/
def fiveYears : Booking :=
  sideBySide [.onLine 1 (EnglandAndWales.on 2022 3 24) (.determinate (Duration.of .years 5))] .empty

theorem fiveYears_release :
    ∃ o, fiveYears.calculate EnglandAndWales.config {} = .ok o
      ∧ o.latestRelease? = some (EnglandAndWales.on 2024 10 22) := by
  have heval : Outcome.latestRelease? <$> fiveYears.calculate EnglandAndWales.config {}
      = .ok (some (EnglandAndWales.on 2024 10 22)) := by decide +kernel
  exact Answered.map_eq_ok.mp heval

/-- It is in the second tranche, which starts a month after that. -/
theorem release_delayed_iff_fiveYears :
    ∃ o, fiveYears.calculate EnglandAndWales.config {} = .ok o
      ∧ o.latestRelease? = some (EnglandAndWales.on 2024 10 22)
      ∧ ∃ standard s, fiveYears.pass EnglandAndWales.config {} .standard = .ok standard
        ∧ standard.outcome.releaseDate? = some s
        ∧ (s < EnglandAndWales.on 2024 10 22 ↔ o.tranche = .tranche2
          ∧ EnglandAndWales.earlyRelease.trancheOneCommencement ≤ s
          ∧ s < EnglandAndWales.earlyRelease.trancheTwoCommencement)
        ∧ (s < EnglandAndWales.on 2024 10 22 →
          EnglandAndWales.on 2024 10 22 = EnglandAndWales.earlyRelease.trancheTwoCommencement) := by
  obtain ⟨o, ho, hr⟩ := fiveYears_release
  exact ⟨o, ho, hr, release_delayed_iff ho hr⟩

/-- Early release may delay release. -/
theorem not_release_le_standard :
    ¬ ∀ (b : Booking) (inputs : Inputs) (o : Outcome) (standard : Pass) (r s : Date),
      b.calculate EnglandAndWales.config inputs = .ok o →
      b.pass EnglandAndWales.config inputs .standard = .ok standard →
      o.latestRelease? = some r → standard.outcome.releaseDate? = some s → r ≤ s := by
  intro hle
  have hpass : (·.outcome.releaseDate?) <$> fiveYears.pass EnglandAndWales.config {} .standard
      = .ok (some (EnglandAndWales.on 2024 9 21)) := by decide +kernel
  obtain ⟨o, ho, hr⟩ := fiveYears_release
  obtain ⟨standard, hstandard, hs⟩ := Answered.map_eq_ok.mp hpass
  exact absurd (hle fiveYears {} o standard _ _ ho hstandard hr hs) (by decide)

/-! ## Release of both kinds -/

/-- **When there is release on licence and without.** Neither pass has both. The merge has both when
the booking is in a tranche and the passes keep different ones. -/
theorem released_in_both_ways_iff {config : Config} (h : b.calculate config inputs = .ok o) :
    ∃ standard early, b.pass config inputs .standard = .ok standard
      ∧ b.pass config inputs .early = .ok early
      ∧ (∀ p ∈ [standard, early], p.outcome.date? .crd = none ∨ p.outcome.date? .ard = none)
      ∧ (o.date? .crd ≠ none ∧ o.date? .ard ≠ none ↔ o.tranche ≠ .tranche0
        ∧ (standard.outcome.date? .crd ≠ none ∧ early.outcome.date? .ard ≠ none
          ∨ standard.outcome.date? .ard ≠ none ∧ early.outcome.date? .crd ≠ none)) := by
  obtain ⟨standard, early, tranche, hs, he, _, rfl⟩ := calculate_eq_ok h
  have hS := (pass_extracted hs).one_release
  have hE := (pass_extracted he).one_release
  refine ⟨standard, early, hs, he, by simp [hS, hE], ?_⟩
  rw [Outcome.tranche_mergeEarly]
  cases hstart : config.earlyRelease.commencement? tranche with
  | none =>
    -- outside of the scheme the dates are those of the standard pass, which has one of them at most
    rw [Outcome.mergeEarly_of_none hstart]
    have htranche := Outcome.commencement?_eq_none_iff.mp hstart
    refine ⟨fun hboth => ?_, fun hboth => absurd htranche hboth.1⟩
    rcases hS with hcrd | hard
    · exact absurd hcrd hboth.1
    · exact absurd hard hboth.2
  | some commencement =>
    have htranche : tranche ≠ .tranche0 := by
      rintro rfl
      cases hstart
    have hdate {kind : DateKind} (hkind : kind.IsRelease) :
        (Outcome.mergeEarly config standard.outcome early.outcome tranche).date? kind = none
          ↔ standard.outcome.date? kind = none ∧ early.outcome.date? kind = none := by
      rw [Outcome.date?_mergeEarly (pass_extracted he).inStep hkind.mem_earlyReleaseSensitive
        hstart, Outcome.mergedDate_eq_none_iff]
    rw [Ne, Ne, hdate (.inl rfl), hdate (.inr rfl)]
    tauto

/-- Two years on line 1, and 90 days for a breach passed half a year after. -/
def breachAfterSentence : Booking :=
  sideBySide [.onLine 1 (EnglandAndWales.on 2024 3 1) (.determinate (Duration.of .years 2)),
    .onLine 2 (EnglandAndWales.on 2024 11 1) (.botus (Duration.of .days 90))] .empty

theorem breachAfterSentence_releases :
    ∃ o, breachAfterSentence.calculate EnglandAndWales.config {} = .ok o
      ∧ o.date? .crd = some (EnglandAndWales.on 2025 2 28)
      ∧ o.date? .ard = some (EnglandAndWales.on 2025 1 29) := by
  have heval : (fun o : Outcome => (o.date? .crd, o.date? .ard))
        <$> breachAfterSentence.calculate EnglandAndWales.config {}
      = .ok (some (EnglandAndWales.on 2025 2 28), some (EnglandAndWales.on 2025 1 29)) := by
    -- two units are sorted, by insertion as far as the kernel is concerned
    simp only [calculate, pass, timeline_eq_insertionSort]
    decide +kernel
  obtain ⟨o, ho, hdates⟩ := Answered.map_eq_ok.mp heval
  exact ⟨o, ho, Prod.ext_iff.mp hdates⟩

/-- The sentence is released last under the standard assumption, and the breach if it is early. -/
theorem released_in_both_ways_iff_breach :
    ∃ o standard early, breachAfterSentence.calculate EnglandAndWales.config {} = .ok o
      ∧ breachAfterSentence.pass EnglandAndWales.config {} .standard = .ok standard
      ∧ breachAfterSentence.pass EnglandAndWales.config {} .early = .ok early
      ∧ o.date? .crd = some (EnglandAndWales.on 2025 2 28)
      ∧ o.date? .ard = some (EnglandAndWales.on 2025 1 29)
      ∧ (standard.outcome.date? .crd ≠ none ∧ early.outcome.date? .ard ≠ none
        ∨ standard.outcome.date? .ard ≠ none ∧ early.outcome.date? .crd ≠ none) := by
  obtain ⟨o, ho, hcrd, hard⟩ := breachAfterSentence_releases
  obtain ⟨standard, early, hs, he, _, hiff⟩ := released_in_both_ways_iff ho
  have hboth := hiff.mp ⟨by rw [hcrd]; exact Option.some_ne_none _,
    by rw [hard]; exact Option.some_ne_none _⟩
  exact ⟨o, standard, early, ho, hs, he, hcrd, hard, hboth.2⟩

/-- A booking may have release of both kinds. -/
theorem not_released_in_one_way :
    ¬ ∀ (b : Booking) (inputs : Inputs) (o : Outcome),
      b.calculate EnglandAndWales.config inputs = .ok o →
      o.date? .crd = none ∨ o.date? .ard = none := by
  intro hone
  obtain ⟨o, ho, hcrd, hard⟩ := breachAfterSentence_releases
  rcases hone breachAfterSentence {} o ho with hnone | hnone
  · rw [hcrd] at hnone
    cases hnone
  · rw [hard] at hnone
    cases hnone

end Booking

end Custody
