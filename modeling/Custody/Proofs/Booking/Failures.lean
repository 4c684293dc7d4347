import Custody.Proofs.Booking.MergedRelease
import Custody.Proofs.Config.Usable
import Custody.Proofs.Unit.Failures

/-!
# How the calculation of a booking may fail

A booking is put together, its units are calculated one by one, and what they come to is brought
together, once for each assumption. A failure of the whole is one of these steps, and under settings
that can be used none of them asks for a setting that is not there. The one exception is a unit that
was passed before early removal had any fraction.

* **`Booking.pass_failsBy`**, **`Booking.calculate_failsBy`**: the steps of a pass, and of both.
* **`Booking.calculate_error_cases`**: under settings that were loaded.
-/

namespace Custody

open Custody.Calendar Custody.Answered Custody.Failure

variable {config : Config} {inputs : Inputs} {assumption : Assumption} {b : Booking}
  {fails : Failure → Prop}

/-! ## Classification -/

namespace Duration

@[simp] theorem atLeastYears_ofBooking (d : Duration) (anchor : Date) (years : UInt32) :
    FailsBy OfBooking (d.atLeastYears anchor years) := by
  simp [atLeastYears]

end Duration

namespace Single

theorem isSdsPlus_ofBooking (s : Single) (t : StandardTerm) :
    FailsBy OfBooking (s.isSdsPlus config inputs t) := by
  have hmarks (marks : OffenceMarks) : FailsBy OfBooking (s.isSdsPlusByMarks config marks t) := by
    simp [isSdsPlusByMarks]
  unfold isSdsPlus
  cases inputs.answerFor? s <;> simp [hmarks]

theorem isEarlyReleaseEligible_ofBooking (s : Single) (t : StandardTerm) :
    FailsBy OfBooking (s.isEarlyReleaseEligible config t) := by
  unfold isEarlyReleaseEligible
  cases t.exclusion <;> simp

theorem trackFor_ofBooking (s : Single) :
    FailsBy OfBooking (s.trackFor config inputs assumption) := by
  have hstandard (t : StandardTerm) :
      FailsBy OfBooking (s.standardTrack config inputs assumption t) := by
    simp [standardTrack, isSdsPlus_ofBooking, isEarlyReleaseEligible_ofBooking]
  have hextended (custodial : Duration) : FailsBy OfBooking (s.extendedTrack config custodial) := by
    simp [extendedTrack]
  unfold trackFor
  cases s.term <;> simp [hstandard, hextended]

end Single

namespace Sentence

theorem classifyComponents_failsBy {parts parts' : List Sentence} {e : Failure}
    (hnested : ∀ part ∈ parts, part.single? = none → fails (.breach .nestedChain))
    (htrack : ∀ s ∈ parts.filterMap single?,
      FailsBy fails (s.trackFor config inputs assumption))
    (h : classifyComponents config inputs assumption parts = (parts', some e)) : fails e := by
  induction parts generalizing parts' with
  | nil => cases h
  | cons part rest ih =>
    rw [List.forall_mem_cons] at hnested
    rw [classifyComponents] at h
    simp only at h
    split at h
    · next failure hfailed =>
      -- the component itself could not be put on a track
      cases h
      have hpart : FailsBy fails (orFail part.single? (.breach .nestedChain) >>= fun s =>
          s.trackFor config inputs assumption) := by
        rw [failsBy_bind, failsBy_orFail]
        refine ⟨hnested.1, fun s hs => htrack s ?_⟩
        exact List.mem_filterMap.mpr ⟨part, List.mem_cons_self, orFail_eq_ok.mp hs⟩
      exact hpart e hfailed
    · simp only [Prod.mk.injEq] at h
      refine ih hnested.2 (fun s hs => htrack s ?_) (Prod.ext rfl h.2)
      obtain ⟨part', hpart', hs⟩ := List.mem_filterMap.mp hs
      exact List.mem_filterMap.mpr ⟨part', List.mem_cons_of_mem part hpart', hs⟩

/-- A sentence with a component on a track has a weightiest track. -/
theorem weightiestTrack?_ne_none {s : Sentence} {track : Track} (h : track ∈ s.componentTracks) :
    s.weightiestTrack? ≠ none := by
  rw [weightiestTrack?, Ne, List.find?_eq_none]
  intro hnone
  refine hnone track ?_ (List.contains_iff_mem.mpr h)
  cases track <;> decide

theorem components_withComponents {s : Sentence} {parts' : List Sentence}
    (h : List.Forall₂ (ComponentClassified config inputs assumption) s.components parts') :
    (s.withComponents parts').components = parts' := by
  cases s with
  | single s =>
    obtain ⟨_, _, ⟨_, _, _, _, rfl⟩, hrest, rfl⟩ := List.forall₂_cons_left_iff.mp h
    cases hrest
    rfl
  | chain parts whole => rfl

/-- Classification fails as that of a component does. -/
theorem classify_failsBy {s : Sentence}
    (hnested : ∀ part ∈ s.components, part.single? = none → fails (.breach .nestedChain))
    (htrack : ∀ t ∈ s.singles, FailsBy fails (t.trackFor config inputs assumption))
    (hempty : s.components = [] → fails (.breach .noClassifiedComponents)) :
    FailsBy fails (s.classify config inputs assumption) := by
  rw [classify, classifyAsFar]
  cases hparts : classifyComponents config inputs assumption s.components with
  | mk parts' failure =>
    cases failure with
    | some e =>
      simp only [failsBy_error]
      exact classifyComponents_failsBy hnested htrack hparts
    | none =>
      cases hweight : (s.withComponents parts').weightiestTrack? with
      | some track => simp [hweight]
      | none =>
        simp only [hweight, failsBy_error]
        apply hempty
        -- otherwise the first component would be on a track
        have hclassified := classifyComponents_classified hparts
        have hsame := components_withComponents hclassified
        generalize s.components = parts at hclassified ⊢
        cases hclassified with
        | nil => rfl
        | cons hpart _ =>
          obtain ⟨t, track, _, _, rfl⟩ := hpart
          refine absurd hweight (weightiestTrack?_ne_none (?_ : track ∈ _))
          rw [componentTracks, hsame]
          exact List.mem_cons_self

/-! ## Assembly -/

theorem checkCovered_ofBooking (s : Sentence) : FailsBy OfBooking s.checkCovered := by
  cases s <;> simp [checkCovered]

theorem assemble_ofBooking (sentences : List Sentence) :
    FailsBy OfBooking (assemble sentences) := by
  have hchains : FailsBy OfBooking ((sentences.filter isChain).forM checkCovered) :=
    FailsBy.forM fun c _ => checkCovered_ofBooking c
  have hways : FailsBy OfBooking
      ((Single.paths (sentences.filterMap single?)).mapM coveredPath) :=
    FailsBy.mapM fun way _ => by simp [coveredPath, checkCovered_ofBooking]
  -- what is left are failures of the checks themselves
  simp only [assemble, failsBy_bind, hchains, true_and]
  intro _ _
  split
  · simp
  · split
    · simp
    · simp [hways]

end Sentence

namespace Booking

/-! ## One pass -/

/-- The calculation of a unit of a booking, from its tracks on. -/
def calculationOf (config : Config) (b : Booking) (inputs : Inputs) (assumption : Assumption)
    (unit : Sentence) : Answered UnitCalculation :=
  b.entryOf config inputs assumption unit >>= b.calculateUnit config inputs

/-- **How a pass may fail**: as its units are put together, as one of them is calculated, or as the
calculations, one for each unit, are brought together. -/
theorem pass_failsBy (hnil : b.sentences = [] → fails (.unsupported .noSentences))
    (hassemble : FailsBy fails (Sentence.assemble b.sentences))
    (hunit : ∀ units, Sentence.assemble b.sentences = .ok units → ∀ unit ∈ units,
      FailsBy fails (b.calculationOf config inputs assumption unit))
    (hunits : ∀ units (calculations : List UnitCalculation),
      Sentence.assemble b.sentences = .ok units → calculations.length = units.length →
      (∀ c ∈ calculations, ∃ unit ∈ units, b.calculationOf config inputs assumption unit = .ok c) →
      FailsBy fails (Outcome.ofUnits calculations)) :
    FailsBy fails (b.pass config inputs assumption) := by
  unfold pass
  rw [failsBy_ite]
  refine ⟨fun hempty => ?_, fun _ => ?_⟩
  · simp [hnil (List.isEmpty_iff.mp hempty)]
  rw [failsBy_bind]
  refine ⟨hassemble, fun units hassembled => ?_⟩
  replace hunit := hunit units hassembled
  replace hunits := hunits units
  simp only [calculationOf, entryOf, failsBy_bind] at hunit
  rw [failsBy_bind]
  refine ⟨.mapM fun unit h => (hunit unit h).1.1, fun classified hclassified => ?_⟩
  rw [mapM_eq_ok] at hclassified
  -- each entry of the timeline is that of a unit
  have hplaced : FailsBy fails (classified.mapM (TimelineEntry.ofUnit b.returnToCustody)) := by
    refine .mapM fun s hs => ?_
    obtain ⟨unit, hmem, hof⟩ := exists_of_mem_right hclassified hs
    exact (hunit unit hmem).1.2 s hof
  rw [failsBy_bind]
  refine ⟨by simp [timeline, hplaced], fun entries hentries => ?_⟩
  obtain ⟨placed, hplaced, rfl⟩ := timeline_eq_ok.mp hentries
  have hentry : ∀ entry ∈ placed.mergeSort TimelineEntry.notAfter,
      ∃ unit ∈ units, b.entryOf config inputs assumption unit = .ok entry := by
    intro entry hentry
    rw [List.mem_mergeSort] at hentry
    obtain ⟨s, hs, hentry⟩ := exists_of_mem_right (mapM_eq_ok.mp hplaced) hentry
    obtain ⟨unit, hmem, hof⟩ := exists_of_mem_right hclassified hs
    exact ⟨unit, hmem, bind_eq_ok.mpr ⟨s, hof, hentry⟩⟩
  rw [failsBy_bind]
  refine ⟨.mapM fun entry h => ?_, fun calculations hcalculations => ?_⟩
  · obtain ⟨unit, hmem, hof⟩ := hentry entry h
    exact (hunit unit hmem).2 entry hof
  rw [failsBy_bind]
  refine ⟨hunits calculations hassembled ?_ fun c hc => ?_, fun _ _ => failsBy_pure _⟩
  · rw [← (mapM_eq_ok.mp hcalculations).length_eq, List.length_mergeSort,
      ← (mapM_eq_ok.mp hplaced).length_eq, hclassified.length_eq]
  · obtain ⟨entry, hmem, hcalculated⟩ := exists_of_mem_right (mapM_eq_ok.mp hcalculations) hc
    obtain ⟨unit, hunit, hof⟩ := hentry entry hmem
    exact ⟨unit, hunit, bind_eq_ok.mpr ⟨entry, hof, hcalculated⟩⟩

/-! ## Both passes -/

theorem calculate_failsBy
    (hpass : ∀ assumption, FailsBy fails (b.pass config inputs assumption))
    (htranche : ∀ standard early, b.pass config inputs .standard = .ok standard →
      b.pass config inputs .early = .ok early →
      FailsBy fails (Outcome.allocateTranche config early.units standard.outcome)) :
    FailsBy fails (b.calculate config inputs) := by
  rw [calculate, failsBy_bind]
  refine ⟨hpass .standard, fun standard hstandard => ?_⟩
  rw [failsBy_bind]
  refine ⟨hpass .early, fun early hearly => ?_⟩
  rw [failsBy_bind]
  exact ⟨htranche standard early hstandard hearly, fun _ _ => failsBy_pure _⟩

/-! ## Settings that can be used -/

theorem ofUnits_ofBooking (calculations : List UnitCalculation) :
    FailsBy OfBooking (Outcome.ofUnits calculations) := by
  simp [Outcome.ofUnits]

theorem allocateTranche_ofBooking (units : List Sentence) (standard : Outcome) :
    FailsBy OfBooking (Outcome.allocateTranche config units standard) := by
  have hlong (unit : Sentence) : FailsBy OfBooking (unit.inTrancheTwo config) := by
    simp [Sentence.inTrancheTwo]
  have htranche : FailsBy OfBooking (Outcome.trancheOf config units) := by
    induction units with
    | nil => simp [Outcome.trancheOf]
    | cons unit rest ih =>
      simp only [Outcome.trancheOf, failsBy_ite, failsBy_bind, failsBy_pure, hlong, ih, true_and,
        implies_true]
      intro _ _ _ _ tranche _
      cases tranche <;> simp
  simp [Outcome.allocateTranche, htranche]

theorem entryOf_ofBooking (unit : Sentence) :
    FailsBy OfBooking (b.entryOf config inputs assumption unit) := by
  have hclassify : FailsBy OfBooking (unit.classify config inputs assumption) :=
    Sentence.classify_failsBy (fun _ _ _ => trivial) (fun s _ => s.trackFor_ofBooking)
      fun _ => trivial
  have hplace (s : Sentence) : FailsBy OfBooking (TimelineEntry.ofUnit b.returnToCustody s) := by
    unfold TimelineEntry.ofUnit
    cases b.returnToCustody <;> simp
  simp [entryOf, hclassify, hplace]

theorem calculationOf_failsBy (husable : config.Usable) (unit : Sentence) :
    FailsBy (fun failure => failure.OfBooking ∨ inputs.calculateErsed = true
      ∧ ∃ d, unit.sentencedAt? = some d ∧ config.ersed.LacksFraction d failure)
      (b.calculationOf config inputs assumption unit) := by
  rw [calculationOf, failsBy_bind]
  refine ⟨(entryOf_ofBooking unit).mono fun _ => .inl, fun entry hentry => ?_⟩
  have hpoints (track : Track) : ∃ m, config.releasePoints.multipliers.get? track = some m := by
    obtain ⟨m, hm, _⟩ := husable.multiplier track
    exact ⟨m, hm⟩
  have hof := entryOf_isOf hentry
  have hdate : unit.sentencedAt? = some entry.sentencedAt := by
    rw [← Sentence.sentencedAt?_untracked, ← hof.classified.untracked_eq,
      Sentence.sentencedAt?_untracked, hof.sentencedAt]
  exact (calculateUnit_failsBy hpoints hof.sentencedAt).mono fun failure =>
    Or.imp_right fun h => ⟨h.1, entry.sentencedAt, hdate, h.2⟩

/-- **Settings that were loaded do not fail later.** A booking has an answer, or it is not covered,
or its calculation leaves the ground it stands on; or else early removal is asked for and a unit was
passed before any fraction of it comes into force. -/
theorem calculate_error_cases {directory : String} {text? : ConfigFile → Option String}
    {e : Failure} (hload : Config.load directory text? = .ok config)
    (h : b.calculate config inputs = .error e) :
    (∃ cause, e = .unsupported cause) ∨ (∃ cause, e = .breach cause)
      ∨ inputs.calculateErsed = true
        ∧ ∃ units unit d, Sentence.assemble b.sentences = .ok units ∧ unit ∈ units
          ∧ unit.sentencedAt? = some d ∧ e = .invalidConfig (.noFractionOn d)
          ∧ ∀ f ∈ config.ersed.fractions, d < f.effectiveFrom := by
  -- each part of the calculation fails because of the booking, removal apart
  have hcalculate : FailsBy (fun failure => failure.OfBooking ∨ inputs.calculateErsed = true
      ∧ ∃ units unit d, Sentence.assemble b.sentences = .ok units ∧ unit ∈ units
        ∧ unit.sentencedAt? = some d ∧ config.ersed.LacksFraction d failure)
      (b.calculate config inputs) := by
    refine calculate_failsBy (fun assumption => ?_) fun standard early _ _ =>
      (allocateTranche_ofBooking early.units standard.outcome).mono fun _ => .inl
    refine pass_failsBy (fun _ => .inl trivial)
      ((Sentence.assemble_ofBooking b.sentences).mono fun _ => .inl) ?_
      fun _ calculations _ _ _ => (ofUnits_ofBooking calculations).mono fun _ => .inl
    intro units hunits unit hunit
    refine (calculationOf_failsBy (Config.usable_of_load hload) unit).mono fun failure => ?_
    -- which lacks a fraction only where it is asked for
    refine Or.imp_right fun hlacks => ?_
    obtain ⟨hersed, d, hd, hlacks⟩ := hlacks
    exact ⟨hersed, units, unit, d, hunits, hunit, hd, hlacks⟩
  rcases hcalculate e h with hbooking | ⟨hersed, units, unit, d, hunits, hunit, hd, rfl, hlater⟩
  · exact (ofBooking_iff.mp hbooking).imp_right .inl
  · exact .inr (.inr ⟨hersed, units, unit, d, hunits, hunit, hd, rfl, hlater⟩)

/-- Six months passed on 1 April 2005, three days before the first fraction comes into force. -/
def beforeFractions : Booking :=
  sideBySide [.onLine 1 (EnglandAndWales.on 2005 4 1) (.determinate (Duration.of .months 6))] .empty

theorem calculate_error_cases_beforeFractions :
    Config.load "config" (fun file => some (EnglandAndWales.text file))
        = .ok EnglandAndWales.config
      ∧ beforeFractions.calculate EnglandAndWales.config { calculateErsed := true }
        = .error (.invalidConfig (.noFractionOn (EnglandAndWales.on 2005 4 1)))
      ∧ ∃ units unit, Sentence.assemble beforeFractions.sentences = .ok units ∧ unit ∈ units
        ∧ unit.sentencedAt? = some (EnglandAndWales.on 2005 4 1)
        ∧ ∀ f ∈ EnglandAndWales.ersed.fractions,
          EnglandAndWales.on 2005 4 1 < f.effectiveFrom := by
  have hload := EnglandAndWales.load_text "config"
  have herror : beforeFractions.calculate EnglandAndWales.config { calculateErsed := true }
      = .error (.invalidConfig (.noFractionOn (EnglandAndWales.on 2005 4 1))) := by decide +kernel
  refine ⟨hload, herror, ?_⟩
  rcases calculate_error_cases hload herror with ⟨_, h⟩ | ⟨_, h⟩ | ⟨_, units, unit, d, hcase⟩
  · cases h
  · cases h
  · obtain ⟨hunits, hunit, hd, heq, hlater⟩ := hcase
    cases heq
    exact ⟨units, unit, hunits, hunit, hd, hlater⟩

end Booking

end Custody
