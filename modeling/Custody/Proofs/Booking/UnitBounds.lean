import Custody.Proofs.Booking.MergedRelease
import Custody.Proofs.Unit.Bounds

/-!
# Bounds of the dates of the units of a booking

A pass anchors a recalled unit to the return to custody only if that is not before the unit was
passed. With this the dates of every unit are within the bounds of the unit's own counts, whatever
the booking is made of and on whichever tracks its units are.

* **`Booking.units_withinBounds`**: every unit of a pass has its dates within bounds.
-/

namespace Custody

open Custody.Calendar

variable {inputs : Inputs} {assumption : Assumption} {b : Booking} {p : Pass}

namespace Booking

/-- **Every unit of a pass has its dates within bounds**, and none but that of supervision before
the unit was passed. -/
theorem units_withinBounds (h : b.pass EnglandAndWales.config inputs assumption = .ok p) :
    List.Forall₂ (fun unit c => unit.sentencedAt? = some c.sentencedAt
        ∧ b.adjustments.appliedTo unit = .ok c.adjustments ∧ c.WithinBounds)
      p.units p.calculations := by
  refine (unit_of_pass h).imp fun unit c hunit => ?_
  obtain ⟨covered, entry, hcovered, hof, rfl, hcalculated⟩ := hunit
  obtain ⟨adjustments, _, _, _, happlied, _, hm, hdated, _⟩ := calculateUnit_dated hcalculated
  have hsentenced := sentencedAt_of_calculateUnit hcalculated
  have hplaced := entryOf_isOf hof
  have hadjusted : c.adjustments = adjustments :=
    (congrArg UnitCalculation.adjustments hdated.undated).trans hm.adjustments_eq
  refine ⟨hsentenced, hadjusted ▸ happlied, ?_⟩
  -- a recall starts from the return, which is not before the sentence
  refine calculateUnit_withinBounds EnglandAndWales.config_moderate hplaced.classified hcovered
    (fun r hr => ?_) hcalculated
  rw [← Option.some.inj (hplaced.sentencedAt.symm.trans hsentenced)]
  exact sentencedAt_le_recallAnchor hof hr

/-- An extended sentence of six years and three on licence, and two years that were recalled for a
fixed term. -/
def extendedAndRecalled : Booking :=
  { sideBySide [.onLine 1 sentencingDay
      (.extended (Duration.of .years 6) (Duration.of .years 3)),
      { Single.onLine 2 sentencingDay (.determinate (Duration.of .years 2)) with
        recallType := .fixedTerm28 }] .empty with
    returnToCustody := some (EnglandAndWales.on 2023 6 1) }

/-- The one may be removed before parole and that before release, and the other is released 28 days
after the return, long before expiry. -/
theorem units_withinBounds_extendedAndRecalled :
    ∃ p, extendedAndRecalled.pass EnglandAndWales.config { calculateErsed := true } .standard
        = .ok p
      ∧ p.calculations.map (fun c => (c.date? .ersed, c.date? .ped, c.date? .crd))
        = [(some (EnglandAndWales.on 2024 9 26), some (EnglandAndWales.on 2026 3 24),
          some (EnglandAndWales.on 2028 3 23)), (none, none, none)]
      ∧ p.calculations.map (fun c => (c.date? .prrd, c.date? .sled))
        = [(none, some (EnglandAndWales.on 2031 3 23)),
          (some (EnglandAndWales.on 2023 6 28), some (EnglandAndWales.on 2024 3 23))]
      ∧ List.Forall₂ (fun unit c => unit.sentencedAt? = some c.sentencedAt
          ∧ extendedAndRecalled.adjustments.appliedTo unit = .ok c.adjustments ∧ c.WithinBounds)
        p.units p.calculations := by
  have heval : (fun p : Pass =>
        (p.calculations.map fun c => (c.date? .ersed, c.date? .ped, c.date? .crd),
          p.calculations.map fun c => (c.date? .prrd, c.date? .sled)))
        <$> extendedAndRecalled.pass EnglandAndWales.config { calculateErsed := true } .standard
      = .ok ([(some (EnglandAndWales.on 2024 9 26), some (EnglandAndWales.on 2026 3 24),
            some (EnglandAndWales.on 2028 3 23)), (none, none, none)],
          [(none, some (EnglandAndWales.on 2031 3 23)),
            (some (EnglandAndWales.on 2023 6 28), some (EnglandAndWales.on 2024 3 23))]) := by
    simp only [pass, timeline_eq_insertionSort]
    decide +kernel
  obtain ⟨p, hp, hdates⟩ := Answered.map_eq_ok.mp heval
  rw [Prod.mk.injEq] at hdates
  exact ⟨p, hp, hdates.1, hdates.2, units_withinBounds hp⟩

end Booking

end Custody
