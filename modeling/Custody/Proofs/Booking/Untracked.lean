import Custody.Proofs.Booking.Resubmitted
import Custody.Proofs.Sentence.UntrackedUnits

/-!
# Tracks that come with a booking

A sentence may be recorded with a track, at any depth. Nothing is read off a track before
classification has written over all of them, so a pass over a booking is the pass over the booking
without its tracks, whether it has an answer or fails, and so is the answer.

* **`Booking.pass_untracked`**, **`Booking.calculate_untracked`**: tracks that come with a booking.
* **`Booking.tracks_not_looked_at`**: bookings that differ in tracks alone, and what classification
  leaves of a unit.
-/

namespace Custody

open Custody.Calendar

namespace Booking

variable {config : Config} {inputs : Inputs} {assumption : Assumption}

/-- The booking without the tracks of its sentences. -/
def untracked (b : Booking) : Booking :=
  { b with sentences := b.sentences.map Sentence.untracked }

/-- **A pass does not look at the tracks that come with a booking.** -/
theorem pass_untracked (b : Booking) :
    b.untracked.pass config inputs assumption = b.pass config inputs assumption := by
  have hclassified (units : List Sentence) :
      (units.map Sentence.untracked).mapM (Sentence.classify config inputs assumption)
        = units.mapM (Sentence.classify config inputs assumption) := by
    rw [List.mapM_map]
    congr 1
    exact funext fun unit => unit.classify_untracked
  -- and then units are measured without a look at the sentences of the booking
  have hunits : calculateUnit config inputs b.untracked = calculateUnit config inputs b := rfl
  unfold pass
  rw [hunits]
  unfold untracked
  rw [List.isEmpty_map, Sentence.assemble_untracked]
  cases b.sentences.isEmpty with
  | true => rfl
  | false =>
    cases Sentence.assemble b.sentences with
    | error e => rfl
    | ok units =>
      show ((units.map Sentence.untracked).mapM (Sentence.classify config inputs assumption) >>= _)
        = (units.mapM (Sentence.classify config inputs assumption) >>= _)
      rw [hclassified]

/-- **Nor does the answer depend on them.** -/
theorem calculate_untracked (b : Booking) :
    b.untracked.calculate config inputs = b.calculate config inputs := by
  unfold calculate
  rw [pass_untracked, pass_untracked]

/-- **Tracks that come with a booking are not looked at.** Bookings that differ in tracks alone have
the same answer and the same passes, or fail alike. A unit that is classified has every component on
a track and is on one itself, is the same in all else, and stays as it is when it is classified
again. -/
theorem tracks_not_looked_at (config : Config) (inputs : Inputs) :
    (∀ b b' : Booking, b.untracked = b'.untracked →
        b.calculate config inputs = b'.calculate config inputs
          ∧ ∀ assumption, b.pass config inputs assumption = b'.pass config inputs assumption)
      ∧ ∀ assumption (unit classified : Sentence),
        unit.classify config inputs assumption = .ok classified →
          (∀ part ∈ classified.components, ∃ track, part.track? = some track)
            ∧ (∃ track, classified.track? = some track)
            ∧ classified.untracked = unit.untracked
            ∧ classified.classify config inputs assumption = .ok classified := by
  constructor
  · intro b b' hsame
    have hanswer := congrArg (calculate config · inputs) hsame
    have hpass (assumption : Assumption) := congrArg (pass config · inputs assumption) hsame
    simp only [calculate_untracked, pass_untracked] at hanswer hpass
    exact ⟨hanswer, hpass⟩
  · intro assumption unit classified h
    have hclassified := Sentence.classify_classifiedAs h
    obtain ⟨hparts, htrack⟩ := hclassified.exists_track
    exact ⟨hparts, htrack, hclassified.untracked_eq, hclassified.again⟩

/-- The sentences of `forked`, on tracks that they do not belong on. -/
def misplaced : Booking :=
  { forked with sentences := [
      .single { Single.linked 3 (some 1) with track := some .recall },
      .single { Single.linked 1 none with track := some .sdsEarly },
      .single (.linked 2 (some 1)),
      .chain [.single { Single.linked 5 none with track := some .edsAutomatic },
        .single (.linked 6 none)] (some .sdsPlus),
      .single (.linked 4 none)] }

/-- Committals that are recorded on other tracks lead to the same release, and the chain among them
is classified as one of committals. -/
theorem tracks_not_looked_at_misplaced :
    misplaced.untracked = forked.untracked
      ∧ (∃ o, forked.calculate EnglandAndWales.config {} = .ok o
        ∧ o.date? .ard = some (EnglandAndWales.on 2020 11 21)
        ∧ misplaced.calculate EnglandAndWales.config {} = .ok o)
      ∧ misplaced.pass EnglandAndWales.config {} .early
        = forked.pass EnglandAndWales.config {} .early
      ∧ ∃ unit ∈ misplaced.sentences, ∃ classified,
        unit.classify EnglandAndWales.config {} .standard = .ok classified
          ∧ unit.track? = some .sdsPlus ∧ classified.track? = some .botus
          ∧ classified.untracked = unit.untracked
          ∧ classified.classify EnglandAndWales.config {} .standard = .ok classified := by
  obtain ⟨hsame, hunits⟩ := tracks_not_looked_at EnglandAndWales.config {}
  have huntracked : misplaced.untracked = forked.untracked := rfl
  have hanswer : (fun o : Outcome => o.date? .ard) <$> forked.calculate EnglandAndWales.config {}
      = .ok (some (EnglandAndWales.on 2020 11 21)) := by
    simp only [calculate, pass, timeline_eq_insertionSort, assemble_forked]
    decide +kernel
  obtain ⟨o, ho, hdate⟩ := Answered.map_eq_ok.mp hanswer
  obtain ⟨hcalculate, hpass⟩ := hsame _ _ huntracked
  have hclassify : Sentence.track? <$> (Sentence.chain
        [.single { Single.linked 5 none with track := some .edsAutomatic },
          .single (.linked 6 none)] (some .sdsPlus)).classify EnglandAndWales.config {} .standard
      = .ok (some .botus) := by
    decide +kernel
  obtain ⟨classified, hclassified, htrack⟩ := Answered.map_eq_ok.mp hclassify
  obtain ⟨_, _, huntouched, hagain⟩ := hunits _ _ _ hclassified
  refine ⟨huntracked, ⟨o, ho, hdate, hcalculate.trans ho⟩, hpass .early, _, ?_, classified,
    hclassified, rfl, htrack, huntouched, hagain⟩
  exact .tail _ (.tail _ (.tail _ (.head _)))

end Booking

end Custody
