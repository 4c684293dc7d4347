import Custody.Booking.Timeline
import Custody.Proofs.Answered
import Custody.Proofs.Sentence.Tracks
import Custody.Proofs.Sorting

/-!
# The units in order

Units are put in order by date of sentencing, then case and line. The order is total, so the
timeline is in order throughout, and it may be read as one entry being put in its place after the
other. None of it depends on tracks, so both passes over a booking have the same order.

* **`timeline_eq_ok`**: the timeline is the entries of the units, sorted.
* **`timeline_eq_insertionSort`**: sorting as putting one entry in its place after the other.
* **`TimelineEntry.notAfter_eq`**: the order of units does not depend on the assumption.
-/

namespace Custody

open Custody.Calendar

variable {config : Config} {inputs : Inputs} {assumption : Assumption}

/-! ## The order of entries -/

namespace TimelineEntry

theorem notAfter_iff {a b : TimelineEntry} : a.notAfter b = true
    ↔ a.sentencedAt.day < b.sentencedAt.day ∨ a.sentencedAt.day = b.sentencedAt.day
      ∧ (a.unit.sequence.1.toNat < b.unit.sequence.1.toNat
        ∨ a.unit.sequence.1.toNat = b.unit.sequence.1.toNat
          ∧ a.unit.sequence.2.toNat ≤ b.unit.sequence.2.toNat) := by
  simp only [notAfter, Bool.or_eq_true, Bool.and_eq_true, decide_eq_true_eq, Date.lt_iff,
    Date.ext_iff, UInt32.lt_iff_toNat_lt, UInt32.le_iff_toNat_le, ← UInt32.toNat_inj]

theorem notAfter_trans (a b c : TimelineEntry) (hab : a.notAfter b) (hbc : b.notAfter c) :
    a.notAfter c := by
  rw [notAfter_iff] at hab hbc ⊢
  omega

theorem notAfter_total (a b : TimelineEntry) : a.notAfter b || b.notAfter a := by
  rw [Bool.or_eq_true, notAfter_iff, notAfter_iff]
  omega

end TimelineEntry

/-! ## The entries of units -/

/-- An entry is that of a unit under an assumption. -/
structure TimelineEntry.IsOf (config : Config) (inputs : Inputs) (assumption : Assumption)
    (unit : Sentence) (entry : TimelineEntry) : Prop where
  classified : ClassifiedAs config inputs assumption unit entry.unit
  sentencedAt : entry.unit.sentencedAt? = some entry.sentencedAt

namespace TimelineEntry

/-- The entry of a unit. A return to custody is an anchor only if it is not before the unit was
passed. -/
theorem ofUnit_eq_ok {returned : Option Date} {unit : Sentence} {entry : TimelineEntry}
    (h : ofUnit returned unit = .ok entry) :
    entry.unit = unit ∧ unit.sentencedAt? = some entry.sentencedAt
      ∧ (entry.recallAnchor = if unit.recallType.isRecall then returned else none)
      ∧ ∀ r, entry.recallAnchor = some r → entry.sentencedAt ≤ r := by
  simp only [ofUnit, Answered.bind_eq_ok, Answered.orFail_eq_ok] at h
  obtain ⟨sentencedAt, hsentenced, h⟩ := h
  -- a return date counts for a recall only, and is not before the sentence
  cases hrecall : unit.recallType.isRecall with
  | false =>
    rw [hrecall] at h
    cases h
    exact ⟨rfl, hsentenced, rfl, by simp⟩
  | true =>
    rw [hrecall] at h
    cases returned with
    | none =>
      cases h
      exact ⟨rfl, hsentenced, rfl, by simp⟩
    | some date =>
      simp only [Bool.not_true, Bool.false_eq_true, if_false] at h
      split at h
      · cases h
      · next hback =>
        cases h
        refine ⟨rfl, hsentenced, rfl, fun r hr => ?_⟩
        cases hr
        rw [Date.lt_iff] at hback
        exact Date.le_iff.mpr (Int.not_lt.mp hback)

variable {assumption' : Assumption} {unit : Sentence} {x y x' y' : TimelineEntry}

theorem IsOf.sentencedAt_eq (hx : IsOf config inputs assumption unit x)
    (hy : IsOf config inputs assumption' unit y) : x.sentencedAt = y.sentencedAt := by
  have huntracked := hx.classified.untracked_eq.trans hy.classified.untracked_eq.symm
  have hdate : x.unit.sentencedAt? = y.unit.sentencedAt? := by
    rw [← Sentence.sentencedAt?_untracked, huntracked, Sentence.sentencedAt?_untracked]
  rw [hx.sentencedAt, hy.sentencedAt] at hdate
  exact Option.some.inj hdate

theorem IsOf.sequence_eq (hx : IsOf config inputs assumption unit x)
    (hy : IsOf config inputs assumption' unit y) : x.unit.sequence = y.unit.sequence := by
  have huntracked := hx.classified.untracked_eq.trans hy.classified.untracked_eq.symm
  rw [← Sentence.sequence_untracked, huntracked, Sentence.sequence_untracked]

/-- **The order of entries does not depend on the assumption.** -/
theorem notAfter_eq {unit' : Sentence} (hx : IsOf config inputs assumption unit x)
    (hy : IsOf config inputs assumption' unit y) (hx' : IsOf config inputs assumption unit' x')
    (hy' : IsOf config inputs assumption' unit' y') : x.notAfter x' = y.notAfter y' := by
  rw [notAfter, notAfter, hx.sentencedAt_eq hy, hx'.sentencedAt_eq hy', hx.sequence_eq hy,
    hx'.sequence_eq hy']

end TimelineEntry

/-- The units in their places, and then in order. -/
theorem timeline_eq_ok {returned : Option Date} {units : List Sentence}
    {entries : List TimelineEntry} :
    timeline returned units = .ok entries
      ↔ ∃ placed, units.mapM (TimelineEntry.ofUnit returned) = .ok placed
        ∧ entries = placed.mergeSort TimelineEntry.notAfter := by
  unfold timeline
  rw [Answered.bind_eq_ok]
  refine exists_congr fun placed => and_congr_right fun _ => ?_
  rw [Answered.pure_eq_ok]
  exact eq_comm

/-- **Sorting puts one entry in its place after the other.** -/
theorem timeline_eq_insertionSort (returned : Option Date) (units : List Sentence) :
    timeline returned units
      = (fun entries => entries.insertionSort fun a b => a.notAfter b)
        <$> units.mapM (TimelineEntry.ofUnit returned) := by
  rw [timeline]
  cases units.mapM (TimelineEntry.ofUnit returned) with
  | error e => rfl
  | ok entries =>
    exact congrArg Except.ok (Sorting.mergeSort_eq_insertionSort TimelineEntry.notAfter_trans
      TimelineEntry.notAfter_total entries)

end Custody
