import Custody.Proofs.Booking.Agreement
import Custody.Proofs.Booking.MergedOrder

/-!
# Bounds that the merge keeps

The merge takes a date from either pass, or holds it until the tranche starts when it would be
before that. It never moves a date forward past both. So what no date of a kind is before in either
pass, the merged date is not before: expiry, which is the same in both, and a minimum that is served
by the same units in both.

* **`Outcome.le_date?_mergeEarly`**: a bound of both passes is one of the merge.
* **`expiry_lt_supervision_of_calculate`**: top-up supervision ends after the sentence.
* **`minimum_le_curfew_of_calculate`**: the minimum has been served by the date of curfew.
-/

namespace Custody

open Custody.Calendar

/-! ## Bounds -/

namespace Outcome

variable {config : Config} {standard early : Outcome} {tranche : Tranche}

/-- A date that is not before a day under either assumption is not before it when merged. -/
theorem le_mergedDate {commencement : Date} {standard early : Option Date} {n : Int} {d : Date}
    (hstandard : ∀ s, standard = some s → n ≤ s.day) (hearly : ∀ e, early = some e → n ≤ e.day)
    (h : mergedDate commencement standard early = some d) : n ≤ d.day := by
  cases early with
  | none =>
    -- the standard date is held until the start, if anything
    obtain ⟨s, rfl, rfl⟩ := Option.map_eq_some_iff.mp h
    have hs := hstandard s rfl
    rw [Date.day_max]
    omega
  | some e =>
    have he := hearly e rfl
    rcases mergedDate_eq_some h with ⟨e', he', _, rfl⟩ | ⟨hnot, hle, _⟩
    · exact hearly d he'
    · -- the early date is before the start, and the merged date is not
      have hlt := hnot e rfl
      omega

/-- **A bound of both passes is one of the merge.** -/
theorem le_date?_mergeEarly (hinStep : early.InStep) {kind : DateKind} {n : Int} {d : Date}
    (hstandard : ∀ s, standard.date? kind = some s → n ≤ s.day)
    (hearly : ∀ e, early.date? kind = some e → n ≤ e.day)
    (h : (mergeEarly config standard early tranche).date? kind = some d) : n ≤ d.day := by
  by_cases hkind : kind ∈ DateKind.earlyReleaseSensitive
  · cases hstart : config.earlyRelease.commencement? tranche with
    | none =>
      rw [mergeEarly_of_none hstart] at h
      exact hstandard d h
    | some commencement =>
      rw [date?_mergeEarly hinStep hkind hstart] at h
      exact le_mergedDate hstandard hearly h
  · -- a kind that does not depend on early release is that of the standard pass
    rw [date?_mergeEarly_of_notMem hkind] at h
    exact hstandard d h

end Outcome

namespace Booking

variable {config : Config} {inputs : Inputs} {b : Booking} {standard early : Pass} {o : Outcome}

/-! ## Supervision and expiry -/

/-- Both passes expire on the same date. -/
theorem expiryDate?_eq_of_passes (hs : b.pass config inputs .standard = .ok standard)
    (he : b.pass config inputs .early = .ok early) :
    standard.outcome.expiryDate? = early.outcome.expiryDate? := by
  -- the units of the passes agree on all that early release does not move
  have hunits : List.Forall₂ UnitCalculation.Agree standard.calculations early.calculations := by
    refine (calculations_correspond hs he).imp fun c c' hboth => ?_
    obtain ⟨unit, x, y, hcovered, hx, hy, hc, hc'⟩ := hboth
    exact calculateUnit_agree hcovered hx hy hc hc'
  obtain ⟨hbreakdown, _⟩ :=
    Outcome.ofUnits_agree hunits (ofUnits_of_pass hs) (ofUnits_of_pass he)
  refine Outcome.expiryDate?_congr fun kind hkind => ?_
  rw [(pass_extracted hs).inStep.date?_eq, (pass_extracted he).inStep.date?_eq,
    hbreakdown kind hkind.notMem_earlyReleaseSensitive]

/-- **Top-up supervision ends after the sentence**, in any tranche. -/
theorem expiry_lt_supervision_of_calculate (h : b.calculate config inputs = .ok o) {d : Date}
    (hd : o.date? .tused = some d) : ∃ x, o.expiryDate? = some x ∧ x < d := by
  obtain ⟨standard, early, tranche, hs, he, _, rfl⟩ := calculate_eq_ok h
  obtain ⟨x, _, hx⟩ := (pass_extracted hs).expiry
  have houtcome := ofUnits_of_pass hs
  have houtcome' := ofUnits_of_pass he
  rw [Outcome.expiryDate?_mergeEarly]
  refine ⟨x.releaseDate, hx, ?_⟩
  -- the day after expiry is a bound of both passes, which expire on the same date
  have hafter : x.releaseDate.day + 1 ≤ d.day := by
    refine Outcome.le_date?_mergeEarly (pass_extracted he).inStep (fun s hdate => ?_)
      (fun e hdate => ?_) hd
    · obtain ⟨y, hy, hlt⟩ := Outcome.expiry_lt_supervision houtcome hdate
      rw [hx] at hy
      cases hy
      omega
    · obtain ⟨y, hy, hlt⟩ := Outcome.expiry_lt_supervision houtcome' hdate
      rw [← expiryDate?_eq_of_passes hs he, hx] at hy
      cases hy
      omega
  rw [Date.lt_iff]
  omega

/-- A year from the first day of 2023, with 600 days awarded. -/
def heldForAwardedDays : Booking :=
  sideBySide [.onLine 1 (EnglandAndWales.on 2023 1 1) (.determinate (Duration.of .years 1))]
    (Adjustments.empty.add .additionalDaysAwarded { days := 600 })

/-- Supervision is held until the first tranche starts, long after expiry. -/
theorem expiry_lt_supervision_of_calculate_held :
    ∃ o, heldForAwardedDays.calculate EnglandAndWales.config {} = .ok o
      ∧ o.tranche = .tranche1
      ∧ o.date? .tused = some (EnglandAndWales.on 2024 9 10)
      ∧ o.expiryDate? = some (EnglandAndWales.on 2023 12 31)
      ∧ ∃ x, o.expiryDate? = some x ∧ x < EnglandAndWales.on 2024 9 10 := by
  have heval : (fun o : Outcome => (o.tranche, o.date? .tused, o.expiryDate?))
        <$> heldForAwardedDays.calculate EnglandAndWales.config {}
      = .ok (.tranche1, some (EnglandAndWales.on 2024 9 10),
        some (EnglandAndWales.on 2023 12 31)) := by
    decide +kernel
  obtain ⟨o, ho, hdates⟩ := Answered.map_eq_ok.mp heval
  simp only [Prod.mk.injEq] at hdates
  obtain ⟨htranche, htused, hexpiry⟩ := hdates
  exact ⟨o, ho, htranche, htused, hexpiry, expiry_lt_supervision_of_calculate ho htused⟩

/-! ## Curfew and the minimum -/

/-- Curfew of a pass is the curfew of a unit. -/
theorem exists_curfew_of_pass {assumption : Assumption} {p : Pass}
    (h : b.pass config inputs assumption = .ok p) {variant : Curfew}
    (hdate : p.outcome.date? variant.kind ≠ none) :
    ∃ c ∈ p.calculations, c.date? variant.kind ≠ none := by
  obtain ⟨d, hd⟩ := Option.ne_none_iff_exists'.mp hdate
  have hlatest := ((pass_extracted h).eligibility _ variant.kind_isEligibility d hd).1
  -- the latest of no dates would be none
  by_contra hnone
  refine hlatest ((Outcome.latest?_eq_none_iff (inStep_of_mem_calculations h)).mpr fun c hc => ?_)
  rw [UnitCalculation.dateAmong?_singleton]
  by_contra hkind
  exact hnone ⟨c, hc, hkind⟩

/-- **The minimum has been served by curfew of a pass**, of every unit that has it. -/
theorem minimum_le_curfew_of_pass {assumption : Assumption} {p : Pass}
    (h : b.pass config inputs assumption = .ok p) {variant : Curfew} {c : UnitCalculation}
    (hc : c ∈ p.calculations) (hcurfew : c.date? variant.kind ≠ none) {d : Date}
    (hd : p.outcome.date? variant.kind = some d) :
    c.sentencedAt.day + (variant.terms config).minimumCustodialDays ≤ d.day := by
  obtain ⟨e, he⟩ := Option.ne_none_iff_exists'.mp hcurfew
  obtain ⟨_, _, _, _, hcalculated⟩ := exists_of_mem_calculations h hc
  have hminimum := minimum_le_curfew hcalculated he
  have hle := Outcome.le_curfew (inStep_of_mem_calculations h) (ofUnits_of_pass h) hc he hd
  omega

/-- Units of the two passes that correspond start on the same date, and have curfew both or
neither. -/
theorem curfews_correspond {variant : Curfew} (hterms : (variant.terms config).IgnoresEase)
    (hs : b.pass config inputs .standard = .ok standard)
    (he : b.pass config inputs .early = .ok early) :
    List.Forall₂ (fun c c' : UnitCalculation => c.sentencedAt = c'.sentencedAt
        ∧ (c.date? variant.kind ≠ none ↔ c'.date? variant.kind ≠ none))
      standard.calculations early.calculations := by
  refine (calculations_correspond hs he).imp fun c c' hboth => ?_
  obtain ⟨_, _, _, _, hx, hy, hc, hc'⟩ := hboth
  -- such terms apply to a unit under both assumptions or under neither
  obtain ⟨hsentenced, hisSome⟩ := curfew_isSome_eq hterms (entryOf_isOf hx).classified
    (entryOf_isOf hy).classified hc hc'
  refine ⟨hsentenced, ?_⟩
  rw [← Option.isSome_iff_ne_none, ← Option.isSome_iff_ne_none, hisSome]

/-- **The minimum has been served by the date of curfew**, of every unit that has it under the
standard assumption, and there is such a unit. -/
theorem minimum_le_curfew_of_calculate {variant : Curfew}
    (hterms : (variant.terms config).IgnoresEase) (h : b.calculate config inputs = .ok o) {d : Date}
    (hd : o.date? variant.kind = some d) :
    ∃ standard, b.pass config inputs .standard = .ok standard
      ∧ (∃ c ∈ standard.calculations, c.date? variant.kind ≠ none)
      ∧ ∀ c ∈ standard.calculations, c.date? variant.kind ≠ none →
        c.sentencedAt.day + (variant.terms config).minimumCustodialDays ≤ d.day := by
  obtain ⟨standard, early, tranche, hs, he, _, rfl⟩ := calculate_eq_ok h
  have hinStep := (pass_extracted he).inStep
  have hcorrespond := curfews_correspond hterms hs he
  refine ⟨standard, hs, ?_, fun c hc hcurfew => ?_⟩
  · -- one of the passes has the date, and so a unit has it in that pass and in the other
    by_cases hstandard : standard.outcome.date? variant.kind = none
    · have hearly : early.outcome.date? variant.kind ≠ none := by
        intro hearly
        rw [Outcome.date?_mergeEarly_eq_none hinStep hstandard hearly] at hd
        cases hd
      obtain ⟨c', hc', hcurfew'⟩ := exists_curfew_of_pass he hearly
      obtain ⟨c, hc, _, hiff⟩ := Answered.exists_of_mem_right hcorrespond hc'
      exact ⟨c, hc, hiff.mpr hcurfew'⟩
    · exact exists_curfew_of_pass hs hstandard
  · -- its minimum is a bound of both passes, since the unit is in both, from the same date
    obtain ⟨c', hc', hsentenced, hiff⟩ := Answered.exists_of_mem_right hcorrespond.flip hc
    refine Outcome.le_date?_mergeEarly hinStep (fun s hdate => ?_) (fun e hdate => ?_) hd
    · exact minimum_le_curfew_of_pass hs hc hcurfew hdate
    · rw [hsentenced]
      exact minimum_le_curfew_of_pass he hc' (hiff.mp hcurfew) hdate

/-- **The minimum has been served by the date of curfew** in England and Wales, whatever the
adjustments, the number of units and the tranche. -/
theorem minimum_served_by_curfew (h : b.calculate EnglandAndWales.config inputs = .ok o) {d : Date}
    (hd : o.date? .hdced = some d) :
    ∃ standard, b.pass EnglandAndWales.config inputs .standard = .ok standard
      ∧ (∃ c ∈ standard.calculations, c.date? .hdced ≠ none)
      ∧ ∀ c ∈ standard.calculations, c.date? .hdced ≠ none →
        EnglandAndWales.hdced.minimumCustodialDays ≤ c.sentencedAt.daysUntil d := by
  have hterms : (Curfew.hdced.terms EnglandAndWales.config).IgnoresEase :=
    EnglandAndWales.hdced_ignoresEase
  obtain ⟨standard, hs, hexists, hminimum⟩ := minimum_le_curfew_of_calculate hterms h hd
  refine ⟨standard, hs, hexists, fun c hc hcurfew => ?_⟩
  have hle : c.sentencedAt.day + EnglandAndWales.hdced.minimumCustodialDays ≤ d.day :=
    hminimum c hc hcurfew
  unfold Date.daysUntil
  omega

/-- With 74 days served on remand, curfew is fourteen days after sentencing. -/
theorem minimum_served_by_curfew_servedOnRemand :
    ∃ o, servedOnRemand.calculate EnglandAndWales.config {} = .ok o
      ∧ o.date? .hdced = some (EnglandAndWales.on 2024 9 19)
      ∧ ∃ standard, servedOnRemand.pass EnglandAndWales.config {} .standard = .ok standard
        ∧ (∃ c ∈ standard.calculations, c.date? .hdced ≠ none)
        ∧ ∀ c ∈ standard.calculations, c.date? .hdced ≠ none →
          EnglandAndWales.hdced.minimumCustodialDays
            ≤ c.sentencedAt.daysUntil (EnglandAndWales.on 2024 9 19) := by
  obtain ⟨o, ho, _, hd⟩ := servedOnRemand_dates
  exact ⟨o, ho, hd, minimum_served_by_curfew ho hd⟩

end Booking

end Custody
