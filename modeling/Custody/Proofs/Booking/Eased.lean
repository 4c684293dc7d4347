import Custody.Proofs.Booking.MergedRelease
import Custody.Proofs.Outcome.Order
import Custody.Proofs.Unit.Eased

/-!
# Early release is not later

Both passes have the same units, and the early pass has no date of a unit later than the standard
one. What the booking has is the latest of its units, or, of parole, the latest release of the units
without it if that is later, and neither comes out later from dates that are not.

* **`Booking.calculateUnit_easedDates`**: the dates of a unit in both passes.
* **`Outcome.latestRaised?_le_of_eased`**: a date that is put back.
* **`Booking.passes_eased`**: the two passes.
-/

namespace Custody

open Custody.Calendar

variable {config : Config} {inputs : Inputs} {b : Booking}

/-! ## Units -/

namespace Booking

/-- A unit has a date of removal in both passes or in neither, and in the early one no later. -/
theorem removal_eased (husable : config.Usable) {x y : TimelineEntry} {c c' : UnitCalculation}
    {track track' : Track} (htrack : x.unit.track? = some track)
    (htrack' : y.unit.track? = some track')
    (htracks : track = track' ∨ track.isSds = true ∧ track'.isSds = true)
    (hcounts : c.EasedCounts c') (hrelease : UnitCalculation.Eased c c')
    (hc : b.calculateUnit config inputs x = .ok c)
    (hc' : b.calculateUnit config inputs y = .ok c') :
    Option.Rel (fun d e : Date => e ≤ d) (c.date? .ersed) (c'.date? .ersed) := by
  by_cases hasked : Eligibility.removal ∈ schemes inputs
  · have hgiven := breakdown_of_scheme hc hasked
    have hgiven' := breakdown_of_scheme hc' hasked
    rw [(inStep_of_calculateUnit hc).date?_eq, (inStep_of_calculateUnit hc').date?_eq]
    change Eligibility.removal.date? config b.offender x.unit c = .ok (c.breakdowns.get? .ersed)
      at hgiven
    change Eligibility.removal.date? config b.offender y.unit c' = .ok (c'.breakdowns.get? .ersed)
      at hgiven'
    generalize c.breakdowns.get? .ersed = found, c'.breakdowns.get? .ersed = found'
      at hgiven hgiven'
    obtain ⟨happlies, hdate⟩ := Eligibility.date?_eq_ok hgiven
    obtain ⟨happlies', hdate'⟩ := Eligibility.date?_eq_ok hgiven'
    -- removal looks at the kind of track alone, so both units have a date or neither
    have hsame : found.isSome = found'.isSome := by
      rw [← Except.ok.inj happlies, ← Except.ok.inj happlies']
      exact RemovalTerms.applies_eased htrack htrack' htracks hrelease
    cases found with
    | none =>
      cases found' with
      | none => exact .none
      | some _ => cases hsame
    | some d =>
      cases found' with
      | none => cases hsame
      | some e => exact .some (RemovalTerms.date_le husable.fraction hcounts.sentencedAt
          hcounts.adjustments hcounts.paroleDays hcounts.releaseDays_nonneg hcounts.releaseDays_le
          hcounts.releaseDays_le_range (hdate d rfl) (hdate' e rfl))
  · -- not asked for, removal is not recorded for any unit
    have hnone {z : TimelineEntry} {k : UnitCalculation}
        (hk : b.calculateUnit config inputs z = .ok k) : k.date? .ersed = none := by
      obtain ⟨_, start, _, _, hstep, hnone, hrun⟩ := calculateUnit_eq_ok hk
      rw [hrun.date?_of_others hstep]
      · exact (hstep.get?_eq_none_iff _).mpr (hnone .removal)
      · rintro e he heq
        have hsame : e.kind = Eligibility.removal.kind := heq
        exact hasked (Eligibility.kind_injective hsame ▸ he)
    rw [hnone hc, hnone hc']
    exact .none

/-- **The dates of a unit in the early pass are no later.** -/
theorem calculateUnit_easedDates (husable : config.Usable)
    (hearly : config.releasePoints.fraction .sdsEarly ≤ config.releasePoints.fraction .sdsStandard)
    (hparole : config.releasePoints.NoParoleOnSds) {unit : Sentence} {x y : TimelineEntry}
    {c c' : UnitCalculation} (hcovered : unit.checkCovered = .ok ())
    (hx : TimelineEntry.IsOf config inputs .standard unit x)
    (hy : TimelineEntry.IsOf config inputs .early unit y)
    (hc : b.calculateUnit config inputs x = .ok c)
    (hc' : b.calculateUnit config inputs y = .ok c') : UnitCalculation.EasedDates c c' := by
  obtain ⟨adjustments, t, a, m, happlied, ht, hm, hdated, _⟩ := calculateUnit_dated hc
  obtain ⟨adjustments', t', a', m', happlied', ht', hm', hdated', _⟩ := calculateUnit_dated hc'
  rw [appliedTo_eq hx hy, happlied'] at happlied
  cases happlied
  have htracks := hx.classified.tracks_agree hy.classified hcovered ht ht'
  have hcounts : c.EasedCounts c' := (hm.easedCounts husable.areFractions hearly hparole
    hx.classified hy.classified htracks hm').of_undated hdated.undated hdated'.undated
  have hrelease := calculateUnit_eased husable.areFractions hearly hcovered hx hy hc hc'
  -- parole is reckoned from counts that early release leaves alone
  have hparoleDay : (c.date? .ped).map Date.day = (c'.date? .ped).map Date.day := by
    obtain ⟨s, hs, hdate⟩ := date?_parole_of_calculateUnit hc
    obtain ⟨s', hs', hdate'⟩ := date?_parole_of_calculateUnit hc'
    cases Option.some.inj (ht.symm.trans hs)
    cases Option.some.inj (ht'.symm.trans hs')
    rw [hdate, hdate', hcounts.paroleDays, hcounts.sentencedAt, hcounts.adjustments]
    simp only [Track.recall_iff_of_agree htracks]
  refine ⟨?_, ?_, fun d e hd he => ?_⟩
  · have hidentifier : some c.undated.identifier = some c'.undated.identifier := by
      rw [hdated.undated, hdated'.undated, ← hm.identifier, ← hm'.identifier,
        ← Sentence.identifier?_untracked x.unit, hx.classified.untracked_eq,
        ← hy.classified.untracked_eq, Sentence.identifier?_untracked]
    exact Option.some.inj hidentifier
  · simp only [List.forall_mem_cons, List.not_mem_nil, false_implies, implies_true, and_true]
    refine ⟨hrelease .crd (.inl rfl), hrelease .ard (.inr rfl), ?_,
      removal_eased husable ht ht' htracks hcounts hrelease hc hc'⟩
    cases hd : c.date? .ped <;> cases he : c'.date? .ped <;> rw [hd, he] at hparoleDay
    · exact .none
    · cases hparoleDay
    · cases hparoleDay
    · exact .some (Option.some.inj hparoleDay).ge
  · -- supervision is reckoned from the release, which comes no later
    have hgiven := breakdown_of_scheme hc (supervision_mem_schemes inputs)
    have hgiven' := breakdown_of_scheme hc' (supervision_mem_schemes inputs)
    rw [(inStep_of_calculateUnit hc).date?_eq, Option.map_eq_some_iff] at hd
    rw [(inStep_of_calculateUnit hc').date?_eq, Option.map_eq_some_iff] at he
    obtain ⟨found, hfound, rfl⟩ := hd
    obtain ⟨found', hfound', rfl⟩ := he
    have hle := hcounts.releaseDays_le
    have hnonneg := hcounts.releaseDays_nonneg
    have hrange := hcounts.releaseDays_le_range
    refine SupervisionTerms.date_le hcounts.sentencedAt (fun hreach => ?_)
      ((Eligibility.date?_eq_ok hgiven).2 found hfound)
      ((Eligibility.date?_eq_ok hgiven').2 found' hfound')
    rw [hcounts.adjustments]
    exact wrap64_le_wrap64 hreach (by omega) (by omega)

end Booking

/-! ## A date that is put back -/

namespace Outcome

variable {units units' : List UnitCalculation}

/-- A unit that has the date no later, or is released no later without it. -/
theorem dateOrRelease?_eased {kind : DateKind} {c c' : UnitCalculation}
    (hrelease : UnitCalculation.Eased c c')
    (hdate : Option.Rel (fun d e : Date => e ≤ d) (c.date? kind) (c'.date? kind)) :
    Option.Rel (fun d e : Date => e ≤ d) (c.dateOrRelease? kind) (c'.dateOrRelease? kind) := by
  unfold UnitCalculation.dateOrRelease?
  generalize c.date? kind = d, c'.date? kind = d' at hdate
  cases hdate with
  | none =>
    rw [Option.none_or, Option.none_or]
    exact hrelease.releaseDate?_rel
  | some hle =>
    rw [Option.some_or, Option.some_or]
    exact .some hle

/-- No date is put back where no unit has it. -/
theorem latestRaised?_eq_none_iff (hunits : ∀ c ∈ units, c.InStep) {kind : DateKind}
    {rule : Rule} : latestRaised? kind rule units = none ↔ ∀ c ∈ units, c.date? kind = none := by
  rw [latestRaised?, Option.map_eq_none_iff, latest?_eq_none_iff hunits]
  simp only [UnitCalculation.dateAmong?_singleton]

/-- **A date that is put back** is no later if no unit has it later, or is released later without
it. -/
theorem latestRaised?_le_of_eased (hunits : ∀ c ∈ units, c.InStep)
    (hunits' : ∀ c ∈ units', c.InStep) {kind : DateKind} (rule : Rule)
    (h : List.Forall₂ (fun c c' : UnitCalculation => UnitCalculation.Eased c c'
      ∧ Option.Rel (fun d e : Date => e ≤ d) (c.date? kind) (c'.date? kind)) units units') :
    Option.Rel (fun b b' : Breakdown => b'.releaseDate ≤ b.releaseDate)
      (latestRaised? kind rule units) (latestRaised? kind rule units') := by
  have hdates : List.Forall₂ (fun c c' : UnitCalculation =>
      Option.Rel (fun d e : Date => e ≤ d) (c.dateOrRelease? kind) (c'.dateOrRelease? kind))
      units units' :=
    h.imp fun _ _ hboth => dateOrRelease?_eased hboth.1 hboth.2
  -- a unit has the date in both passes or in neither, so the booking has as well
  have hnone : latestRaised? kind rule units = none ↔ latestRaised? kind rule units' = none := by
    rw [latestRaised?_eq_none_iff hunits, latestRaised?_eq_none_iff hunits']
    clear hdates hunits hunits'
    induction h with
    | nil => simp
    | @cons c c' _ _ hboth _ ih =>
      have hhead : c.date? kind = none ↔ c'.date? kind = none := by
        have hdate := hboth.2
        generalize c.date? kind = d, c'.date? kind = d' at hdate
        cases hdate <;> simp
      rw [List.forall_mem_cons, List.forall_mem_cons, hhead, ih]
  cases hlate : latestRaised? kind rule units with
  | none =>
    rw [hnone.mp hlate]
    exact .none
  | some b =>
    cases hearly : latestRaised? kind rule units' with
    | none =>
      rw [hnone.mpr hearly] at hlate
      cases hlate
    | some b' =>
      -- the unit that decides in the early pass has no earlier date in the standard one
      obtain ⟨⟨c', hc', hdate'⟩, _⟩ := latestRaised?_isLatest hunits' hearly
      obtain ⟨c, hc, hrel⟩ := Answered.exists_of_mem_right hdates hc'
      rw [hdate'] at hrel
      cases hdate : c.dateOrRelease? kind with
      | none =>
        rw [hdate] at hrel
        cases hrel
      | some d =>
        rw [hdate] at hrel
        obtain ⟨hle⟩ := hrel
        exact .some (le_trans (a := b'.releaseDate.day) hle
          ((latestRaised?_isLatest hunits hlate).2 c hc d hdate))

end Outcome

/-! ## The two passes -/

namespace Booking

/-- Two passes of which the early one has no date later. -/
structure PassesEased (standard early : Pass) : Prop where
  units : List.Forall₂ UnitCalculation.EasedDates standard.calculations early.calculations
  release : Option.Rel (fun d e : Date => e ≤ d) standard.outcome.releaseDate?
    early.outcome.releaseDate?
  parole : Option.Rel (fun d e : Date => e ≤ d) (standard.outcome.date? .ped)
    (early.outcome.date? .ped)

/-- **The early pass has no date later than the standard one**, as long as the fraction of early
release is no greater, and parole is not considered on tracks of standard determinate sentences. -/
theorem passes_eased {directory : String} {text? : ConfigFile → Option String}
    (hload : Config.load directory text? = .ok config)
    (hearly : config.releasePoints.fraction .sdsEarly ≤ config.releasePoints.fraction .sdsStandard)
    (hparole : config.releasePoints.NoParoleOnSds) {standard early : Pass}
    (hs : b.pass config inputs .standard = .ok standard)
    (he : b.pass config inputs .early = .ok early) : PassesEased standard early := by
  have husable := Config.usable_of_load hload
  have hunits := inStep_of_mem_calculations hs
  have hunits' := inStep_of_mem_calculations he
  have hdates : List.Forall₂ UnitCalculation.EasedDates standard.calculations
      early.calculations := by
    refine (calculations_correspond hs he).imp fun c c' hboth => ?_
    obtain ⟨unit, x, y, hcovered, hx, hy, hc, hc'⟩ := hboth
    exact calculateUnit_easedDates husable hearly hparole hcovered (entryOf_isOf hx)
      (entryOf_isOf hy) hc hc'
  refine ⟨hdates, ?_, ?_⟩
  · -- release: either no pass has one, or both have
    rcases releases_eased husable.areFractions hearly hs he with hnone
      | ⟨j, s, k, e, hstandard, hreleased, hle⟩
    · unfold Outcome.releaseDate?
      rw [(hnone .crd (.inl rfl)).1, (hnone .crd (.inl rfl)).2, (hnone .ard (.inr rfl)).1,
        (hnone .ard (.inr rfl)).2]
      exact .none
    · rw [hstandard.releaseDate?_eq, hreleased.releaseDate?_eq]
      exact .some hle
  · -- parole: the latest of the dates of the units, put back to the concurrent release
    obtain ⟨expiry, _, _, hdate⟩ := Outcome.date?_ofUnits (ofUnits_of_pass hs)
    obtain ⟨expiry', _, _, hdate'⟩ := Outcome.date?_ofUnits (ofUnits_of_pass he)
    rw [hdate, hdate', Outcome.date?_ofBreakdowns_of_mem (.head _),
      Outcome.date?_ofBreakdowns_of_mem (.head _)]
    have hraised := Outcome.latestRaised?_le_of_eased hunits hunits' .pedConcurrentRelease
      (Answered.forall₂_and (calculations_eased husable.areFractions hearly hs he)
        (hdates.imp fun _ _ h => h.noLater .ped (by decide)))
    generalize Outcome.latestRaised? .ped .pedConcurrentRelease standard.calculations = x,
      Outcome.latestRaised? .ped .pedConcurrentRelease early.calculations = y at hraised
    cases hraised with
    | none => exact .none
    | some hle => exact .some hle

/-- An extended sentence of three years and two on licence, and one of six years beside it. -/
def extendedAndStandard : Booking :=
  sideBySide [.onLine 1 sentencingDay
      (.extended (Duration.of .years 3) (Duration.of .years 2)),
    .onLine 2 sentencingDay (.determinate (Duration.of .years 6))] .empty

/-- Parole is put back to the release from the six years, which comes earlier in the early pass. -/
theorem passes_eased_extendedAndStandard :
    ∃ standard early,
      Config.load "config" (fun file => some (EnglandAndWales.text file))
        = .ok EnglandAndWales.config
      ∧ EnglandAndWales.config.releasePoints.fraction .sdsEarly
        ≤ EnglandAndWales.config.releasePoints.fraction .sdsStandard
      ∧ EnglandAndWales.config.releasePoints.NoParoleOnSds
      ∧ extendedAndStandard.pass EnglandAndWales.config { calculateErsed := true } .standard
        = .ok standard
      ∧ extendedAndStandard.pass EnglandAndWales.config { calculateErsed := true } .early
        = .ok early
      ∧ standard.outcome.date? .ped = some (EnglandAndWales.on 2025 3 23)
      ∧ early.outcome.date? .ped = some (EnglandAndWales.on 2024 8 16)
      ∧ standard.calculations.map (·.date? .ersed)
        = [some (EnglandAndWales.on 2023 3 24), some (EnglandAndWales.on 2023 9 26)]
      ∧ early.calculations.map (·.date? .ersed)
        = [some (EnglandAndWales.on 2023 3 24), some (EnglandAndWales.on 2023 6 5)]
      ∧ PassesEased standard early := by
  have hstandard : (fun p : Pass => (p.outcome.date? .ped, p.calculations.map (·.date? .ersed)))
        <$> extendedAndStandard.pass EnglandAndWales.config { calculateErsed := true } .standard
      = .ok (some (EnglandAndWales.on 2025 3 23),
        [some (EnglandAndWales.on 2023 3 24), some (EnglandAndWales.on 2023 9 26)]) := by
    simp only [pass, timeline_eq_insertionSort]
    decide +kernel
  have hearly : (fun p : Pass => (p.outcome.date? .ped, p.calculations.map (·.date? .ersed)))
        <$> extendedAndStandard.pass EnglandAndWales.config { calculateErsed := true } .early
      = .ok (some (EnglandAndWales.on 2024 8 16),
        [some (EnglandAndWales.on 2023 3 24), some (EnglandAndWales.on 2023 6 5)]) := by
    simp only [pass, timeline_eq_insertionSort]
    decide +kernel
  have hparole : EnglandAndWales.config.releasePoints.NoParoleOnSds := by
    intro track hsds
    cases track <;> first | rfl | cases hsds
  obtain ⟨standard, hs, hdates⟩ := Answered.map_eq_ok.mp hstandard
  obtain ⟨early, he, hdates'⟩ := Answered.map_eq_ok.mp hearly
  obtain ⟨hped, hersed⟩ := Prod.ext_iff.mp hdates
  obtain ⟨hped', hersed'⟩ := Prod.ext_iff.mp hdates'
  have hload := EnglandAndWales.load_text "config"
  exact ⟨standard, early, hload, EnglandAndWales.fraction_early_le, hparole, hs, he, hped, hped',
    hersed, hersed', passes_eased hload EnglandAndWales.fraction_early_le hparole hs he⟩

end Booking

end Custody
