import Custody.Proofs.Booking.MergedRelease
import Custody.Proofs.Booking.Passes
import Custody.Proofs.Calendar.Period
import Custody.Proofs.Outcome.MergedEntries
import Custody.Proofs.Outcome.Reach
import Custody.Proofs.Sentence.Earliest
import Custody.Proofs.Unit.Failures
import Custody.Proofs.Unit.Reckoned

/-!
# The effective length of a booking

The effective length is the period from the earliest sentencing date of a booking up to the day
after the last of its units would expire without adjustments. No unit would expire before it was
passed, so there is such a period, and it leads where the period between two dates does: up to that
day, unless it loses a leap day between its years and its months.

* **`Booking.earliest_of_calculations`**: the units that are calculated begin when the sentences do.
* **`Booking.effectiveLength_of_pass`**: the effective length of a pass is such a period.
-/

namespace Custody

open Custody.Calendar

variable {config : Config} {inputs : Inputs} {assumption : Assumption} {b : Booking}

/-! ## Expiry without adjustments -/

/-- Without adjustments a unit does not expire before it was passed. -/
theorem Booking.sentencedAt_le_unadjustedExpiry {entry : TimelineEntry} {c : UnitCalculation}
    (h : b.calculateUnit config inputs entry = .ok c) {d : Date}
    (hd : c.unadjustedExpiryDate? = some d) : c.sentencedAt.day ≤ d.day := by
  rw [UnitCalculation.unadjustedExpiryDate?_eq, Option.map_eq_some_iff] at hd
  obtain ⟨expiry, hexpiry, rfl⟩ := hd
  obtain ⟨kind, hkind, hfound⟩ := List.exists_of_findSome?_eq_some hexpiry
  have hreckoned := calculateUnit_allReckoned h kind expiry hfound
  exact Date.start_le_of_lastDay (Breakdown.lastDays_of_inclusive
    (hreckoned.expiry_eq_ok (by simpa [DateKind.IsExpiry] using hkind))).1

/-! ## The earliest date -/

namespace Booking

/-- **The units that are calculated begin when the sentences do.** -/
theorem earliest_of_calculations {p : Pass} (h : b.pass config inputs assumption = .ok p) :
    (p.calculations.map UnitCalculation.sentencedAt).min? = Sentence.earliestOf? b.sentences := by
  obtain ⟨_, units, entries, hunits, hentries, _, hcalculations, _⟩ := pass_eq_ok.mp h
  rw [Answered.mapM_eq_ok] at hentries hcalculations
  -- dates are handed on from units to entries, from there in another order, and to calculations
  have hplaced : units.filterMap Sentence.sentencedAt?
      = entries.filterMap fun entry => entry.unit.sentencedAt? := by
    refine Answered.filterMap_eq_of_forall₂ (hentries.imp fun unit entry hentry => ?_)
    rw [← Sentence.sentencedAt?_untracked, ← (entryOf_isOf hentry).classified.untracked_eq,
      Sentence.sentencedAt?_untracked]
  have hsorted := (entries.mergeSort_perm TimelineEntry.notAfter).filterMap
    fun entry => entry.unit.sentencedAt?
  have hcalculated : (entries.mergeSort TimelineEntry.notAfter).filterMap
        (fun entry => entry.unit.sentencedAt?)
      = p.calculations.map UnitCalculation.sentencedAt := by
    rw [← List.filterMap_eq_map]
    exact Answered.filterMap_eq_of_forall₂
      (hcalculations.imp fun _ _ => sentencedAt_of_calculateUnit)
  rw [← hcalculated, Date.min?_eq_of_perm hsorted, ← hplaced, Sentence.earliest_of_assemble hunits]

end Booking

/-! ## Effective lengths -/

/-- The effective length of an outcome is a period from a date up to the day after the end of the
sentence without adjustments. -/
structure Outcome.Spans (o : Outcome) (earliest esed : Date) : Prop where
  endsOn : o.otherDates.get? .esed = some esed
  earliest_le : earliest ≤ esed
  leadsUpTo : ∃ stop : Date, stop.day = esed.day + 1 ∧ o.effectiveLength.LeadsUpTo earliest stop

namespace Booking

variable {o : Outcome}

/-- The effective length of a pass is the period up to the day after its end. -/
theorem effectiveLength_of_pass {p : Pass} (h : b.pass config inputs assumption = .ok p) :
    ∃ earliest esed, Sentence.earliestOf? b.sentences = some earliest
      ∧ p.outcome.Spans earliest esed := by
  obtain ⟨earliest, expiry, esed, stop, hearliest, _, hesed, hstop, houtcome⟩ :=
    Outcome.ofUnits_eq_ok.mp (ofUnits_of_pass h)
  rw [Date.plusDays_eq_ok] at hstop
  -- the unit that would expire last was not passed before the earliest
  obtain ⟨c, hc, hexpires⟩ := List.mem_filterMap.mp (List.max?_mem hesed)
  obtain ⟨_, _, _, _, hcalculated⟩ := exists_of_mem_calculations h hc
  have hunit := sentencedAt_le_unadjustedExpiry hcalculated hexpires
  have hbefore : earliest ≤ c.sentencedAt :=
    (List.min?_eq_some_iff.mp hearliest).2 _ (List.mem_map_of_mem hc)
  rw [Date.le_iff] at hbefore
  refine ⟨earliest, esed, by rw [← earliest_of_calculations h, hearliest], ?_⟩
  rw [houtcome]
  refine ⟨by simp, Date.le_iff.mpr (by omega), stop, hstop, ?_⟩
  exact Duration.between_leadsUpTo (Date.lt_iff.mpr (by omega))

/-- The merge keeps the effective length of the standard pass. -/
theorem effectiveLength_of_calculate (h : b.calculate config inputs = .ok o) :
    ∃ earliest esed, Sentence.earliestOf? b.sentences = some earliest ∧ o.Spans earliest esed := by
  obtain ⟨standard, early, tranche, hs, _, _, rfl⟩ := calculate_eq_ok h
  obtain ⟨earliest, esed, hearliest, hspans⟩ := effectiveLength_of_pass hs
  refine ⟨earliest, esed, hearliest, ?_⟩
  refine ⟨?_, hspans.earliest_le, ?_⟩
  · rw [Outcome.otherDates_mergeEarly]
    exact hspans.endsOn
  · rw [Outcome.effectiveLength_mergeEarly]
    exact hspans.leadsUpTo

/-- **The period between two dates leads to the later one**, and the effective length of a booking
from its earliest sentencing date to the day after its end, unless a leap day is lost between years
and months; then either is a day short. -/
theorem periods_lead_up_to_end (config : Config) (inputs : Inputs) (b : Booking) (o : Outcome)
    (start stop : Date) :
    (start < stop → (Duration.between start stop).LeadsUpTo start stop)
      ∧ ((b.calculate config inputs = .ok o
          ∨ ∃ assumption p, b.pass config inputs assumption = .ok p ∧ o = p.outcome) →
        ∃ earliest esed, Sentence.earliestOf? b.sentences = some earliest
          ∧ o.Spans earliest esed) := by
  refine ⟨fun h => Duration.between_leadsUpTo h, fun h => ?_⟩
  rcases h with h | ⟨assumption, p, h, rfl⟩
  · exact effectiveLength_of_calculate h
  · exact effectiveLength_of_pass h

/-- Thirteen months from a 29 February. -/
def thirteenMonths : Booking :=
  sideBySide [.onLine 1 (EnglandAndWales.on 2020 2 29)
    (.determinate (Duration.of .months 13))] .empty

/-- A period from a 29 February that is a day short, one that stops at the end of a February on its
way and is not, and a booking of which the effective length is the first of them. -/
theorem periods_lead_up_to_end_thirteenMonths :
    EnglandAndWales.on 2020 2 29 < EnglandAndWales.on 2021 3 29
      ∧ (Duration.between (EnglandAndWales.on 2020 2 29) (EnglandAndWales.on 2021 3 29)).endDate
          (EnglandAndWales.on 2020 2 29) = .ok (EnglandAndWales.on 2021 3 28)
      ∧ EnglandAndWales.on 2023 1 31 < EnglandAndWales.on 2023 3 1
      ∧ (Duration.between (EnglandAndWales.on 2023 1 31) (EnglandAndWales.on 2023 3 1)).endDate
          (EnglandAndWales.on 2023 1 31) = .ok (EnglandAndWales.on 2023 3 1)
      ∧ ∃ o, thirteenMonths.calculate EnglandAndWales.config {} = .ok o
        ∧ o.effectiveLength
          = Duration.between (EnglandAndWales.on 2020 2 29) (EnglandAndWales.on 2021 3 29)
        ∧ ∃ esed,
          Sentence.earliestOf? thirteenMonths.sentences = some (EnglandAndWales.on 2020 2 29)
          ∧ o.Spans (EnglandAndWales.on 2020 2 29) esed := by
  have hleap : EnglandAndWales.on 2020 2 29 < EnglandAndWales.on 2021 3 29 := by decide
  have hlate : EnglandAndWales.on 2023 1 31 < EnglandAndWales.on 2023 3 1 := by decide
  have heval : (fun o : Outcome => o.effectiveLength)
        <$> thirteenMonths.calculate EnglandAndWales.config {}
      = .ok (Duration.between (EnglandAndWales.on 2020 2 29) (EnglandAndWales.on 2021 3 29)) := by
    decide +kernel
  obtain ⟨o, ho, hlength⟩ := Answered.map_eq_ok.mp heval
  obtain ⟨hperiod, houtcome⟩ := periods_lead_up_to_end EnglandAndWales.config {} thirteenMonths o
    (EnglandAndWales.on 2020 2 29) (EnglandAndWales.on 2021 3 29)
  obtain ⟨last, hlast, hday⟩ := (hperiod hleap).lost (by decide +kernel)
  obtain ⟨earliest, esed, hearliest, hspans⟩ := houtcome (.inl ho)
  have hkept := ((periods_lead_up_to_end EnglandAndWales.config {} thirteenMonths o
    (EnglandAndWales.on 2023 1 31) (EnglandAndWales.on 2023 3 1)).1 hlate).kept (by decide +kernel)
  have hstart : Sentence.earliestOf? thirteenMonths.sentences
      = some (EnglandAndWales.on 2020 2 29) := by decide +kernel
  have hfirst : earliest = EnglandAndWales.on 2020 2 29 :=
    Option.some.inj (hearliest.symm.trans hstart)
  have hshort : last = EnglandAndWales.on 2021 3 28 := by
    have hnext : (EnglandAndWales.on 2021 3 28).day + 1 = (EnglandAndWales.on 2021 3 29).day := by
      decide +kernel
    exact Date.ext (by omega)
  exact ⟨hleap, hshort ▸ hlast, hlate, hkept, o, ho, hlength, esed, hstart, hfirst ▸ hspans⟩

/-- It is not so that every period leads to its end. -/
theorem not_period_leads_to_end : ¬ ∀ start stop : Date, start < stop →
    (Duration.between start stop).endDate start = .ok stop := by
  intro h
  have hend := h (EnglandAndWales.on 2020 2 29) (EnglandAndWales.on 2021 3 29) (by decide)
  revert hend
  decide +kernel

end Booking

end Custody
