import Custody.Proofs.Booking.MergedRelease
import Custody.Proofs.Outcome.Options
import Custody.Proofs.Unit.Schemes

/-!
# What options move

Whether removal is asked for, whether the person is an active sex offender and when the person was
born are looked at by one scheme each, and by nothing else. So each of them moves the dates of its
own scheme alone, through the reduction of the units to the booking and the merge of the two passes.

* **`Booking.OptionsBut`**: bookings that differ in what the schemes of some kinds look at.
* **`Booking.calculate_agreeBut`**: they are the same besides dates of those kinds.
* **`Booking.options_move_own_dates`**: the three options.
-/

namespace Custody

open Custody.Calendar

variable {config : Config}

/-! ## What a scheme looks at of a person -/

namespace Eligibility

variable {offender offender' : Offender} {e : Eligibility}

/-- Only curfew looks at whether the person is an active sex offender. -/
theorem date?_eq_of_dateOfBirth (hbirth : offender.dateOfBirth = offender'.dateOfBirth)
    (he : ∀ variant, e ≠ curfew variant) (unit : Sentence) (c : UnitCalculation) :
    e.date? config offender unit c = e.date? config offender' unit c := by
  cases e with
  | curfew variant => exact absurd rfl (he variant)
  | removal => rfl
  | supervision =>
    -- only the age is looked at, which the date of birth decides
    have hage (date : Date) : offender.ageOn? date = offender'.ageOn? date := by
      unfold Offender.ageOn?
      rw [hbirth]
    have hold : config.tused.oldEnough offender = config.tused.oldEnough offender' := by
      funext release
      unfold SupervisionTerms.oldEnough
      rw [hage]
    unfold date? applies SupervisionTerms.applies
    rw [hold]

/-- Only supervision looks at when the person was born. -/
theorem date?_eq_of_isActiveSexOffender
    (hactive : offender.isActiveSexOffender = offender'.isActiveSexOffender)
    (he : e ≠ supervision) (unit : Sentence) (c : UnitCalculation) :
    e.date? config offender unit c = e.date? config offender' unit c := by
  cases e with
  | curfew variant =>
    unfold date? applies CurfewTerms.applies
    rw [hactive]
  | removal => rfl
  | supervision => exact absurd rfl he

end Eligibility

namespace Booking

/-! ## Bookings with other options -/

/-- Two bookings, each with inputs, that differ in what the schemes of some kinds of dates look at,
and in nothing else that is looked at. -/
structure OptionsBut (config : Config) (kinds : List DateKind) (b b' : Booking)
    (inputs inputs' : Inputs) : Prop where
  sentences : b.sentences = b'.sentences
  adjustments : b.adjustments = b'.adjustments
  returnToCustody : b.returnToCustody = b'.returnToCustody
  useOffenceMarks : inputs.useOffenceMarks = inputs'.useOffenceMarks
  answers : inputs.answers = inputs'.answers
  ofSchemes : DateKind.OfSchemes kinds
  asked : ∀ e : Eligibility, e.kind ∉ kinds → (e ∈ schemes inputs ↔ e ∈ schemes inputs')
  given : ∀ e : Eligibility, e.kind ∉ kinds → ∀ unit c,
    e.date? config b.offender unit c = e.date? config b'.offender unit c

variable {kinds : List DateKind} {b b' : Booking} {inputs inputs' : Inputs}

/-- Units are classified without a look at what is asked for of schemes. -/
theorem classify_eq_of_answers (hmarks : inputs.useOffenceMarks = inputs'.useOffenceMarks)
    (hanswers : inputs.answers = inputs'.answers) (assumption : Assumption) (unit : Sentence) :
    unit.classify config inputs assumption = unit.classify config inputs' assumption := by
  -- components are put on tracks one by one
  have htrack (s : Single) :
      s.trackFor config inputs assumption = s.trackFor config inputs' assumption := by
    have hanswer : inputs.answerFor? s = inputs'.answerFor? s := by
      unfold Inputs.answerFor?
      rw [hanswers]
    unfold Single.trackFor Single.standardTrack Single.isSdsPlus
    simp only [hmarks, hanswer]
  have hcomponents (parts : List Sentence) :
      Sentence.classifyComponents config inputs assumption parts
        = Sentence.classifyComponents config inputs' assumption parts := by
    induction parts with
    | nil => rfl
    | cons part parts ih =>
      unfold Sentence.classifyComponents
      simp only [htrack, ih]
  unfold Sentence.classify Sentence.classifyAsFar
  rw [hcomponents]

namespace OptionsBut

theorem entryOf_eq (h : OptionsBut config kinds b b' inputs inputs') (assumption : Assumption) :
    b.entryOf config inputs assumption = b'.entryOf config inputs' assumption := by
  funext unit
  unfold entryOf
  rw [classify_eq_of_answers h.useOffenceMarks h.answers, h.returnToCustody]

/-- The calculations of a unit start alike, and have alike of each scheme besides those. -/
theorem calculateUnit_agreeBut (h : OptionsBut config kinds b b' inputs inputs')
    {entry : TimelineEntry} {c c' : UnitCalculation}
    (hc : b.calculateUnit config inputs entry = .ok c)
    (hc' : b'.calculateUnit config inputs' entry = .ok c') :
    UnitCalculation.AgreeBut kinds c c' := by
  obtain ⟨adjustments, start, happlied, hstart, hstep, hnone, hrun⟩ := calculateUnit_eq_ok hc
  obtain ⟨adjustments', start', happlied', hstart', _, _, hrun'⟩ := calculateUnit_eq_ok hc'
  rw [h.adjustments, happlied'] at happlied
  cases happlied
  rw [hstart'] at hstart
  cases hstart
  -- the schemes of the other kinds are the same, and run from the same start
  have hbreakdown (kind : DateKind) (hkind : kind ∉ kinds) :
      c.breakdowns.get? kind = c'.breakdowns.get? kind := by
    by_cases hasked : ∃ e ∈ schemes inputs, e.kind = kind
    · obtain ⟨e, he, rfl⟩ := hasked
      have hgiven := hrun.date?_eq he (hnone e)
      rw [h.given e hkind, hrun'.date?_eq ((h.asked e hkind).mp he) (hnone e)] at hgiven
      exact (Except.ok.inj hgiven).symm
    · push Not at hasked
      rw [hrun.others kind hasked, hrun'.others kind]
      rintro e he rfl
      exact hasked e ((h.asked e hkind).mpr he) rfl
  refine ⟨?_, hbreakdown, fun kind hkind => ?_⟩
  · show c.undated.sentencedAt = c'.undated.sentencedAt
    rw [hrun.undated, hrun'.undated]
  · rw [(hrun.inStep hstep).date?_eq, (hrun'.inStep hstep).date?_eq, hbreakdown kind hkind]

/-- A pass over them has the same units, and the same outcome besides dates of those kinds. -/
theorem pass_agreeBut (h : OptionsBut config kinds b b' inputs inputs') {assumption : Assumption}
    {p p' : Pass} (hp : b.pass config inputs assumption = .ok p)
    (hp' : b'.pass config inputs' assumption = .ok p') :
    p.units = p'.units ∧ Outcome.AgreeBut kinds p.outcome p'.outcome := by
  obtain ⟨_, units, entries, hunits, hentries, hsorted, hcs, houtcome⟩ := pass_eq_ok.mp hp
  obtain ⟨_, units', entries', hunits', hentries', hsorted', hcs', houtcome'⟩ := pass_eq_ok.mp hp'
  -- both passes have the same units in the same order
  rw [h.sentences, hunits'] at hunits
  cases hunits
  rw [h.entryOf_eq, hentries'] at hentries
  cases hentries
  refine ⟨hsorted.trans hsorted'.symm, ?_⟩
  rw [Answered.mapM_eq_ok] at hcs hcs'
  refine Outcome.ofUnits_agreeBut h.ofSchemes ?_ houtcome houtcome'
  refine (Answered.forall₂_of_common hcs hcs').imp fun c c' hboth => ?_
  obtain ⟨_, _, hc, hc'⟩ := hboth
  exact h.calculateUnit_agreeBut hc hc'

/-- **Bookings that differ in what some schemes look at are the same besides their dates.** -/
theorem calculate_agreeBut (h : OptionsBut config kinds b b' inputs inputs') {o o' : Outcome}
    (ho : b.calculate config inputs = .ok o) (ho' : b'.calculate config inputs' = .ok o') :
    Outcome.AgreeBut kinds o o' := by
  obtain ⟨standard, early, tranche, hs, he, htranche, rfl⟩ := calculate_eq_ok ho
  obtain ⟨standard', early', tranche', hs', he', htranche', rfl⟩ := calculate_eq_ok ho'
  obtain ⟨_, hstandard⟩ := h.pass_agreeBut hs hs'
  obtain ⟨hunits, hearly⟩ := h.pass_agreeBut he he'
  -- the tranche follows from the units and from release, which no scheme gives
  have hrelease : standard.outcome.releaseDate? = standard'.outcome.releaseDate? := by
    unfold Outcome.releaseDate?
    rw [hstandard.date .crd (h.ofSchemes.notMem_of_isRelease (.inl rfl)),
      hstandard.date .ard (h.ofSchemes.notMem_of_isRelease (.inr rfl))]
  have hsame : Outcome.allocateTranche config early.units standard.outcome
      = Outcome.allocateTranche config early'.units standard'.outcome := by
    unfold Outcome.allocateTranche
    rw [hunits, hrelease]
  rw [hsame, htranche'] at htranche
  cases htranche
  exact hstandard.mergeEarly hearly (pass_extracted hs).inStep (pass_extracted hs').inStep

end OptionsBut

/-! ## The options -/

/-- The booking with the person an active sex offender or not. -/
def withActiveSexOffender (b : Booking) (active : Bool) : Booking :=
  { b with offender := { b.offender with isActiveSexOffender := active } }

/-- The booking with the person born on a date, or on a date that is not known. -/
def withDateOfBirth (b : Booking) (birth : Option Date) : Booking :=
  { b with offender := { b.offender with dateOfBirth := birth } }

theorem optionsBut_removal (b : Booking) (inputs : Inputs) (asked : Bool) :
    OptionsBut config [.ersed] b b inputs { inputs with calculateErsed := asked } := by
  refine ⟨rfl, rfl, rfl, rfl, rfl, fun kind hkind => ?_, fun e he => ?_, fun _ _ _ _ => rfl⟩
  · exact ⟨.removal, (List.mem_singleton.mp hkind).symm⟩
  · have hne : e ≠ .removal := by
      rintro rfl
      exact he (List.mem_singleton.mpr rfl)
    unfold schemes
    simp [List.mem_filter, hne]

theorem optionsBut_curfew (b : Booking) (inputs : Inputs) (active : Bool) :
    OptionsBut config [.hdced, .hdced4plus] b (b.withActiveSexOffender active) inputs inputs := by
  refine ⟨rfl, rfl, rfl, rfl, rfl, fun kind hkind => ?_, fun _ _ => Iff.rfl, fun e he => ?_⟩
  · rcases List.mem_pair.mp hkind with rfl | rfl
    · exact ⟨.curfew .hdced, rfl⟩
    · exact ⟨.curfew .hdced4plus, rfl⟩
  · refine Eligibility.date?_eq_of_dateOfBirth rfl fun variant hvariant => he ?_
    rw [hvariant]
    cases variant
    · exact List.mem_pair.mpr (.inl rfl)
    · exact List.mem_pair.mpr (.inr rfl)

theorem optionsBut_supervision (b : Booking) (inputs : Inputs) (birth : Option Date) :
    OptionsBut config [.tused] b (b.withDateOfBirth birth) inputs inputs := by
  refine ⟨rfl, rfl, rfl, rfl, rfl, fun kind hkind => ?_, fun _ _ => Iff.rfl, fun e he => ?_⟩
  · exact ⟨.supervision, (List.mem_singleton.mp hkind).symm⟩
  · refine Eligibility.date?_eq_of_isActiveSexOffender rfl ?_
    rintro rfl
    exact he (List.mem_singleton.mpr rfl)

/-- **An option moves no dates but its own.** Asking for removal moves the date of removal, being an
active sex offender those of curfew, and the date of birth that of supervision. -/
theorem options_move_own_dates {o : Outcome} (h : b.calculate config inputs = .ok o) :
    (∀ asked o', b.calculate config { inputs with calculateErsed := asked } = .ok o' →
        Outcome.AgreeBut [.ersed] o o')
      ∧ (∀ active o', (b.withActiveSexOffender active).calculate config inputs = .ok o' →
        Outcome.AgreeBut [.hdced, .hdced4plus] o o')
      ∧ ∀ birth o', (b.withDateOfBirth birth).calculate config inputs = .ok o' →
        Outcome.AgreeBut [.tused] o o' := by
  refine ⟨fun asked o' h' => ?_, fun active o' h' => ?_, fun birth o' h' => ?_⟩
  · exact (optionsBut_removal b inputs asked).calculate_agreeBut h h'
  · exact (optionsBut_curfew b inputs active).calculate_agreeBut h h'
  · exact (optionsBut_supervision b inputs birth).calculate_agreeBut h h'

/-- A sentence of eighteen months from 24 March 2022. -/
def oneSentence : Booking :=
  sideBySide [.onLine 1 sentencingDay (.determinate (Duration.of .months 18))] .empty

/-- Removal comes with being asked for, curfew goes with an active sex offender, and supervision
with someone who is not of age at release. -/
theorem options_move_own_dates_eighteenMonths :
    ∃ o removed, oneSentence.calculate EnglandAndWales.config {} = .ok o
      ∧ oneSentence.calculate EnglandAndWales.config { calculateErsed := true } = .ok removed
      ∧ o.date? .ersed = none ∧ removed.date? .ersed = some (EnglandAndWales.on 2022 8 8)
      ∧ Outcome.AgreeBut [.ersed] o removed
      ∧ (∃ active, (oneSentence.withActiveSexOffender true).calculate EnglandAndWales.config {}
          = .ok active
        ∧ o.date? .hdced = some (EnglandAndWales.on 2022 8 9) ∧ active.date? .hdced = none
        ∧ Outcome.AgreeBut [.hdced, .hdced4plus] o active)
      ∧ ∃ young, (oneSentence.withDateOfBirth (some (EnglandAndWales.on 2005 5 1))).calculate
          EnglandAndWales.config {} = .ok young
        ∧ o.date? .tused = some (EnglandAndWales.on 2023 12 22) ∧ young.date? .tused = none
        ∧ Outcome.AgreeBut [.tused] o young := by
  have heval : (fun o : Outcome => (o.date? .ersed, o.date? .hdced, o.date? .tused))
      <$> oneSentence.calculate EnglandAndWales.config {}
      = .ok (none, some (EnglandAndWales.on 2022 8 9), some (EnglandAndWales.on 2023 12 22)) := by
    decide +kernel
  have hremoved : (·.date? .ersed)
      <$> oneSentence.calculate EnglandAndWales.config { calculateErsed := true }
      = .ok (some (EnglandAndWales.on 2022 8 8)) := by decide +kernel
  have hactive : (·.date? .hdced)
      <$> (oneSentence.withActiveSexOffender true).calculate EnglandAndWales.config {}
      = .ok none := by decide +kernel
  have hyoung : (·.date? .tused)
      <$> (oneSentence.withDateOfBirth (some (EnglandAndWales.on 2005 5 1))).calculate
        EnglandAndWales.config {}
      = .ok none := by decide +kernel
  obtain ⟨o, ho, hdates⟩ := Answered.map_eq_ok.mp heval
  obtain ⟨removed, hcalculated, hersed⟩ := Answered.map_eq_ok.mp hremoved
  obtain ⟨active, hcalculated', hhdced⟩ := Answered.map_eq_ok.mp hactive
  obtain ⟨young, hcalculated'', htused⟩ := Answered.map_eq_ok.mp hyoung
  simp only [Prod.mk.injEq] at hdates
  obtain ⟨hasked, hsexOffender, hbirth⟩ := options_move_own_dates ho
  exact ⟨o, removed, ho, hcalculated, hdates.1, hersed, hasked true removed hcalculated,
    ⟨active, hcalculated', hdates.2.1, hhdced, hsexOffender true active hcalculated'⟩,
    young, hcalculated'', hdates.2.2, htused, hbirth _ young hcalculated''⟩

end Booking

end Custody
