import Custody.Proofs.Booking.MergedRelease
import Custody.Proofs.Outcome.Agreement

/-!
# What the two passes have in common

A pass under the assumption of early release has the units of the standard pass, in the same order,
and all that the merge takes from the standard pass. What may be different are the tracks of
components that the scheme applies to, and the dates that follow from them.

* **`calculateUnit_agree`**: one unit under the two assumptions.
* **`passes_agree`**: the two passes as a whole.
-/

namespace Custody

open Custody.Calendar

namespace Booking

variable {config : Config} {inputs : Inputs} {b : Booking}

/-- **The calculations of a unit under the two assumptions agree**: it is adjusted by the same days
and anchored to the same return to custody. -/
theorem calculateUnit_agree {unit : Sentence} {x y : TimelineEntry} {c c' : UnitCalculation}
    (hcovered : unit.checkCovered = .ok ()) (hx : b.entryOf config inputs .standard unit = .ok x)
    (hy : b.entryOf config inputs .early unit = .ok y)
    (hc : b.calculateUnit config inputs x = .ok c)
    (hc' : b.calculateUnit config inputs y = .ok c') : UnitCalculation.Agree c c' := by
  have hstandard := (entryOf_isOf hx).classified
  have hearly := (entryOf_isOf hy).classified
  have htype : x.unit.recallType = y.unit.recallType :=
    Sentence.recallType_eq_of_untracked_eq (hstandard.untracked_eq.trans hearly.untracked_eq.symm)
  have hanchor : x.recallAnchor = y.recallAnchor := by
    rw [recallAnchor_entryOf hx, recallAnchor_entryOf hy, htype]
  unfold calculateUnit at hc hc'
  simp only [Answered.bind_eq_ok] at hc hc'
  obtain ⟨adjustments, happlied, c₀, hc₀, hschemes⟩ := hc
  obtain ⟨adjustments', happlied', c₀', hc₀', hschemes'⟩ := hc'
  -- the same adjustments apply, and the recall starts from the same date
  rw [appliedTo_eq (entryOf_isOf hx) (entryOf_isOf hy), happlied'] at happlied
  cases happlied
  rw [hanchor] at hc₀
  have hstart := Sentence.calculate_agree hstandard hearly hcovered hc₀ hc₀'
  exact (recordSchemes_agree hschemes).trans (hstart.trans (recordSchemes_agree hschemes').symm)

/-- Two passes agree on everything that the merge takes from the standard one. -/
structure PassesAgree (standard early : Pass) : Prop where
  /-- The units are the same in the same order but for the tracks of their components, which differ
  from the standard to the early one alone. -/
  units : List.Forall₂ (fun u v => u.untracked = v.untracked
      ∧ List.Forall₂ (fun part part' => ∃ t t', part.track? = some t ∧ part'.track? = some t'
          ∧ (t = t' ∨ t = .sdsStandard ∧ t' = .sdsEarly)) u.components v.components)
    standard.units early.units
  /-- Expiry, licence and release after a recall are the same, breakdowns included. -/
  dates : ∀ kind ∈ [DateKind.sled, .sed, .led, .prrd],
    standard.outcome.date? kind = early.outcome.date? kind
      ∧ standard.outcome.breakdown? kind = early.outcome.breakdown? kind
  otherDates : standard.outcome.otherDates = early.outcome.otherDates
  effectiveLength : standard.outcome.effectiveLength = early.outcome.effectiveLength

/-- **The two passes agree on everything that the merge takes from the standard one.** -/
theorem passes_agree {standard early : Pass} (hs : b.pass config inputs .standard = .ok standard)
    (he : b.pass config inputs .early = .ok early) : PassesAgree standard early := by
  obtain ⟨xs, ys, hstandard, hearly, hentries, _, _⟩ := entries_correspond hs he
  have hcalculations : List.Forall₂ UnitCalculation.Agree standard.calculations
      early.calculations := by
    refine (calculations_correspond hs he).imp fun c c' hboth => ?_
    obtain ⟨unit, x, y, hcovered, hx, hy, hc, hc'⟩ := hboth
    exact calculateUnit_agree hcovered hx hy hc hc'
  obtain ⟨_, _, _, _, _, _, _, houtcome⟩ := pass_eq_ok.mp hs
  obtain ⟨_, _, _, _, _, _, _, houtcome'⟩ := pass_eq_ok.mp he
  obtain ⟨hbreakdown, hother, hlength⟩ := Outcome.ofUnits_agree hcalculations houtcome houtcome'
  refine ⟨?_, fun kind hkind => ?_, hother, hlength⟩
  · rw [hstandard, hearly, List.forall₂_map_left_iff, List.forall₂_map_right_iff]
    refine hentries.imp fun x y hboth => ?_
    obtain ⟨unit, _, hx, hy⟩ := hboth
    have hx := (entryOf_isOf hx).classified
    have hy := (entryOf_isOf hy).classified
    refine ⟨hx.untracked_eq.trans hy.untracked_eq.symm, ?_⟩
    -- each component is a single sentence, on its track under either assumption
    refine (Answered.forall₂_of_common hx.components hy.components).imp fun part part' hparts => ?_
    obtain ⟨_, _, ⟨s, t, rfl, ht, rfl⟩, ⟨s', t', hsame, ht', rfl⟩⟩ := hparts
    cases hsame
    refine ⟨t, t', rfl, rfl, ?_⟩
    cases Single.trackFor_eased ht ht' with
    | same => exact .inl rfl
    | early => exact .inr ⟨rfl, rfl⟩
  · have hnot : kind ∉ DateKind.earlyReleaseSensitive := by
      revert kind
      decide
    have hsame := hbreakdown kind hnot
    refine ⟨?_, hsame⟩
    rw [(pass_extracted hs).inStep.date?_eq, (pass_extracted he).inStep.date?_eq, hsame]

/-- The sentence is on the early track in one pass, and both passes have its expiry on licence. -/
theorem passes_agree_breach :
    ∃ standard early, breachAfterSentence.pass EnglandAndWales.config {} .standard = .ok standard
      ∧ breachAfterSentence.pass EnglandAndWales.config {} .early = .ok early
      ∧ standard.units.map Sentence.componentTracks = [[.sdsStandard], [.botus]]
      ∧ early.units.map Sentence.componentTracks = [[.sdsEarly], [.botus]]
      ∧ standard.outcome.date? .sled = some (EnglandAndWales.on 2026 2 28)
      ∧ PassesAgree standard early := by
  have hstandard : (fun p : Pass => (p.units.map Sentence.componentTracks, p.outcome.date? .sled))
        <$> breachAfterSentence.pass EnglandAndWales.config {} .standard
      = .ok ([[.sdsStandard], [.botus]], some (EnglandAndWales.on 2026 2 28)) := by
    simp only [pass, timeline_eq_insertionSort]
    decide +kernel
  have hearly : (fun p : Pass => p.units.map Sentence.componentTracks)
        <$> breachAfterSentence.pass EnglandAndWales.config {} .early
      = .ok [[.sdsEarly], [.botus]] := by
    simp only [pass, timeline_eq_insertionSort]
    decide +kernel
  obtain ⟨standard, hs, hunits⟩ := Answered.map_eq_ok.mp hstandard
  obtain ⟨early, he, hunits'⟩ := Answered.map_eq_ok.mp hearly
  obtain ⟨htracks, hsled⟩ := Prod.ext_iff.mp hunits
  exact ⟨standard, early, hs, he, htracks, hunits', hsled, passes_agree hs he⟩

end Booking

end Custody
