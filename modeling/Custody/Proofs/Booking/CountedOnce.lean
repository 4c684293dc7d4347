import Custody.Booking.Calculation
import Custody.Config.EnglandAndWales
import Custody.Proofs.Sentence.Assembly
import Custody.Proofs.Total
import Mathlib.Logic.Relation

/-!
# Adjustments are counted once

Each entry of the adjustments counts once towards a unit that it applies to, whichever and however
many of the components it is for, and not at all towards any other. What was restored is taken off
what was awarded when both are totalled, and not entry by entry. So the days that are applied do not
tell in what order the entries were recorded, nor whether days were recorded together or apart, and
days that could not be deducted do not show in them.

* **`AdjustmentEntry.AppliesTo`**, **`AdjustmentEntry.covers_iff`**: the units that an entry is for.
* **`Adjustments.RecordedAs.totalDays_eq`**: the totals of each type do not change from one record
  of the same adjustments to another.
* **`Adjustments.appliedTo_countsOnce`**: the days that are applied to a unit.
-/

namespace Custody

open Custody.Calendar Relation

/-! ## The entries that apply -/

namespace AdjustmentEntry

variable {e : AdjustmentEntry} {unit : Sentence} {sentencedAt : Date}

/-- An entry is for the units passed within its range, both ends included. If it names a line, one
of the components is on that line, and in the case that it names if it names one as well. -/
structure AppliesTo (e : AdjustmentEntry) (unit : Sentence) (sentencedAt : Date) : Prop where
  appliesFrom : ∀ first, e.appliesFrom = some first → first ≤ sentencedAt
  appliesTo : ∀ last, e.appliesTo = some last → sentencedAt ≤ last
  line : ∀ line, e.lineSequence = some line → ∃ s ∈ unit.singles, s.lineSequence = line
    ∧ ∀ case_, e.caseSequence = some case_ → s.caseSequence = case_

theorem coversDate_iff : e.coversDate sentencedAt = true
    ↔ (∀ first, e.appliesFrom = some first → first ≤ sentencedAt)
      ∧ ∀ last, e.appliesTo = some last → sentencedAt ≤ last := by
  simp only [coversDate, Bool.and_eq_true, Option.all_eq_true, decide_eq_true_eq]

theorem coversSequences_iff : e.coversSequences unit.sequences = true
    ↔ ∀ line, e.lineSequence = some line → ∃ s ∈ unit.singles, s.lineSequence = line
      ∧ ∀ case_, e.caseSequence = some case_ → s.caseSequence = case_ := by
  simp only [coversSequences, Sentence.sequences, Single.sequence, Option.all_eq_true,
    List.any_map, List.any_eq_true, Function.comp_apply, Bool.and_eq_true]
  refine forall₂_congr fun line _ => exists_congr fun s => and_congr_right fun _ => ?_
  exact and_congr decide_eq_true_iff
    (forall₂_congr fun case_ _ => decide_eq_true_iff.trans eq_comm)

/-- **The units that an entry is for.** -/
theorem covers_iff : e.covers sentencedAt unit.sequences = true ↔ e.AppliesTo unit sentencedAt := by
  rw [covers, Bool.and_eq_true, coversDate_iff, coversSequences_iff]
  constructor
  · rintro ⟨⟨hfirst, hlast⟩, hline⟩
    exact ⟨hfirst, hlast, hline⟩
  · rintro ⟨hfirst, hlast, hline⟩
    exact ⟨⟨hfirst, hlast⟩, hline⟩

instance (e : AdjustmentEntry) (unit : Sentence) (sentencedAt : Date) :
    Decidable (e.AppliesTo unit sentencedAt) :=
  decidable_of_iff _ covers_iff

end AdjustmentEntry

namespace Adjustments

variable {a a' : Adjustments} {unit : Sentence} {sentencedAt : Date}

/-- The entries of some types that apply to a unit, each as often as it was recorded. -/
def applying (a : Adjustments) (types : List AdjustmentType) (unit : Sentence)
    (sentencedAt : Date) : List AdjustmentEntry :=
  (types.flatMap a.entries).filter fun e => e.AppliesTo unit sentencedAt

/-- The days of the entries of some types that apply to a unit. -/
def applyingDays (a : Adjustments) (types : List AdjustmentType) (unit : Sentence)
    (sentencedAt : Date) : Int :=
  totalOf (·.days.toNat) (a.applying types unit sentencedAt)

theorem applyingDays_eq (types : List AdjustmentType) :
    a.applyingDays types unit sentencedAt
      = totalOf (a.totalDays · sentencedAt unit.sequences) types := by
  have hcovers : (fun e : AdjustmentEntry => decide (e.AppliesTo unit sentencedAt))
      = fun e => e.covers sentencedAt unit.sequences := by
    funext e
    rw [Bool.eq_iff_iff, decide_eq_true_iff, AdjustmentEntry.covers_iff]
  rw [applyingDays, applying, List.filter_flatMap, hcovers, totalOf_flatMap]
  rfl

theorem appliedTo_eq_ok {applied : AppliedAdjustments} :
    a.appliedTo unit = .ok applied ↔ ∃ sentencedAt, unit.sentencedAt? = some sentencedAt
      ∧ applied = {
        deductedDays := a.totalWith .deduction sentencedAt unit.sequences
        sentenceExtensionDays := a.totalWith .sentenceExtension sentencedAt unit.sequences
        releaseExtensionDays := max (a.totalWith .releaseExtension sentencedAt unit.sequences
          - a.totalWith .releaseRestoration sentencedAt unit.sequences) 0 } := by
  simp only [appliedTo, Answered.bind_eq_ok, Answered.orFail_eq_ok, Answered.pure_eq_ok]
  exact exists_congr fun sentencedAt => and_congr_right fun _ => eq_comm

/-! ## The same adjustments recorded differently -/

/-- The adjustments with other entries of one type. -/
def withEntries (a : Adjustments) (type : AdjustmentType) (entries : List AdjustmentEntry) :
    Adjustments :=
  ⟨a.byType.insert type entries⟩

theorem entries_withEntries (a : Adjustments) (type type' : AdjustmentType)
    (entries : List AdjustmentEntry) :
    (a.withEntries type entries).entries type'
      = if type' = type then entries else a.entries type' := by
  rw [withEntries, Adjustments.entries, Table.get?_insert]
  split <;> rfl

/-- One change to a record of adjustments that leaves the adjustments as they are. -/
inductive RecordedAs : Adjustments → Adjustments → Prop where
  /-- The entries of a type are recorded in another order. -/
  | reordered {a : Adjustments} {type : AdjustmentType} {entries : List AdjustmentEntry}
      (hperm : (a.entries type).Perm entries) : RecordedAs a (a.withEntries type entries)
  /-- The days of an entry are recorded in two entries that are for the same sentences. -/
  | split {a : Adjustments} {type : AdjustmentType} {before after : List AdjustmentEntry}
      {e : AdjustmentEntry} {days days' : UInt32} (hentries : a.entries type = before ++ e :: after)
      (hdays : e.days.toNat = days.toNat + days'.toNat) :
      RecordedAs a (a.withEntries type
        (before ++ { e with days := days } :: { e with days := days' } :: after))
  /-- Days that could not be deducted are recorded as well. -/
  | unused {a : Adjustments} (e : AdjustmentEntry) : RecordedAs a (a.add .unusedDeductions e)

/-- The days of an entry that was split are counted as before. -/
theorem totalOf_filter_split (sequences : List (UInt32 × UInt32))
    {before after : List AdjustmentEntry} {e : AdjustmentEntry} {days days' : UInt32}
    (hdays : e.days.toNat = days.toNat + days'.toNat) :
    totalOf (·.days.toNat) ((before ++ { e with days := days } :: { e with days := days' }
        :: after).filter (·.covers sentencedAt sequences))
      = totalOf (·.days.toNat)
        ((before ++ e :: after).filter (·.covers sentencedAt sequences)) := by
  -- each half applies where the whole does
  have hsame (n : UInt32) : ({ e with days := n } : AdjustmentEntry).covers sentencedAt sequences
      = e.covers sentencedAt sequences := rfl
  simp only [List.filter_append, totalOf_append, List.filter_cons, hsame]
  split
  · simp only [totalOf_cons, hdays]
    omega
  · rfl

/-- **The totals of a type do not change from one record to another**, but for days that could not
be deducted. -/
theorem RecordedAs.totalDays_eq (h : RecordedAs a a') {type : AdjustmentType}
    (htype : type ≠ .unusedDeductions) (sentencedAt : Date) (sequences : List (UInt32 × UInt32)) :
    a'.totalDays type sentencedAt sequences = a.totalDays type sentencedAt sequences := by
  cases h with
  | reordered hperm =>
    rw [totalDays, totalDays, entries_withEntries]
    split
    · next heq => exact heq ▸ (totalOf_perm (hperm.filter _)).symm
    · rfl
  | split hentries hdays =>
    rw [totalDays, totalDays, entries_withEntries]
    split
    · next heq => rw [heq, hentries, totalOf_filter_split sequences hdays]
    · rfl
  | unused e =>
    -- deductions that are not used are not of this type
    have hsame : (a.add .unusedDeductions e).entries type = a.entries type := by
      rw [Adjustments.entries, add, Table.get?_insert, if_neg htype, Adjustments.entries]
    rw [totalDays, totalDays, hsame]

/-- What is applied to a unit follows from the totals of the types that have an effect. -/
theorem appliedTo_congr
    (h : ∀ type ≠ .unusedDeductions, ∀ sentencedAt,
      a'.totalDays type sentencedAt unit.sequences = a.totalDays type sentencedAt unit.sequences) :
    a'.appliedTo unit = a.appliedTo unit := by
  have htotal (effect : AdjustmentEffect) (heffect : effect ≠ .informational) (sentencedAt : Date) :
      a'.totalWith effect sentencedAt unit.sequences
        = a.totalWith effect sentencedAt unit.sequences := by
    refine totalOf_congr fun type htype => h type ?_ sentencedAt
    rintro rfl
    exact heffect (of_decide_eq_true (List.mem_filter.mp htype).2).symm
  simp only [appliedTo, htotal .deduction (by decide), htotal .sentenceExtension (by decide),
    htotal .releaseExtension (by decide), htotal .releaseRestoration (by decide)]

/-- **However often the record is changed so**, what is applied stays the same. -/
theorem appliedTo_eq_of_recordedAs (h : ReflTransGen RecordedAs a a') (unit : Sentence) :
    a'.appliedTo unit = a.appliedTo unit := by
  induction h with
  | refl => rfl
  | tail _ hstep ih =>
    rw [← ih]
    exact appliedTo_congr fun type htype sentencedAt =>
      hstep.totalDays_eq htype sentencedAt unit.sequences

/-! ## The days that are applied -/

/-- **Each entry counts once towards a unit that it applies to.** Deductions, extensions of the
sentence, awards and restorations are totalled apart, and what was restored is taken off what was
awarded as far as that goes. None of this depends on how the entries are recorded. -/
theorem appliedTo_countsOnce (a : Adjustments) (unit : Sentence) :
    (∀ applied, a.appliedTo unit = .ok applied → ∃ sentencedAt,
      unit.sentencedAt? = some sentencedAt
        ∧ applied.deductedDays
          = a.applyingDays [.remand, .taggedBail, .custodyAbroad] unit sentencedAt
        ∧ applied.sentenceExtensionDays
          = a.applyingDays [.unlawfullyAtLarge, .appealApplicant] unit sentencedAt
        ∧ applied.releaseExtensionDays
          = max (a.applyingDays [.additionalDaysAwarded] unit sentencedAt
            - a.applyingDays [.additionalDaysRestored] unit sentencedAt) 0)
      ∧ ∀ a', ReflTransGen RecordedAs a a' → a'.appliedTo unit = a.appliedTo unit := by
  refine ⟨fun applied h => ?_, fun a' h => appliedTo_eq_of_recordedAs h unit⟩
  obtain ⟨sentencedAt, hsentenced, rfl⟩ := appliedTo_eq_ok.mp h
  refine ⟨sentencedAt, hsentenced, ?_, ?_, ?_⟩
  · rw [applyingDays_eq]
    rfl
  · rw [applyingDays_eq]
    rfl
  · rw [applyingDays_eq, applyingDays_eq]
    rfl

/-- A sentence passed in the middle of July 2020, on the first line of a case. -/
def firstLineOf (case_ : UInt32) : Single :=
  { Single.linked 1 none with
    caseSequence := case_
    sentencedAt := EnglandAndWales.on 2020 7 13 }

/-- A chain of the first lines of two cases. -/
def inTwoCases : Sentence := .chain [.single (firstLineOf 1), .single (firstLineOf 2)] none

/-- Tagged bail up to the day of sentencing. -/
def bail (days : UInt32) : AdjustmentEntry :=
  { days, appliesTo := some (EnglandAndWales.on 2020 7 13) }

/-- Remand for the first line of any case, for another line and for sentences passed later, bail,
an extension, and more days restored than were awarded. -/
def ofAllEffects : Adjustments :=
  (((((((empty.add .remand { days := 10, lineSequence := some 1 }).add
    .remand { days := 4, lineSequence := some 9 }).add
    .remand { days := 6, appliesFrom := some (EnglandAndWales.on 2020 7 14) }).add
    .taggedBail (bail 5)).add
    .unlawfullyAtLarge { days := 7 }).add
    .additionalDaysAwarded { days := 12, lineSequence := some 1, caseSequence := some 2 }).add
    .additionalDaysRestored { days := 20 })

/-- Remand for both components counts once and bail counts in full, recorded as one entry or two,
and there is nothing left of the award. -/
theorem appliedTo_countsOnce_inTwoCases :
    ofAllEffects.appliedTo inTwoCases = .ok ⟨15, 7, 0⟩
      ∧ ofAllEffects.applyingDays [.remand, .taggedBail, .custodyAbroad] inTwoCases
        (EnglandAndWales.on 2020 7 13) = 15
      ∧ ofAllEffects.applyingDays [.additionalDaysAwarded] inTwoCases
        (EnglandAndWales.on 2020 7 13) = 12
      ∧ ((ofAllEffects.withEntries .taggedBail [bail 3, bail 2]).add
        .unusedDeductions { days := 30 }).appliedTo inTwoCases = .ok ⟨15, 7, 0⟩ := by
  have heval : ofAllEffects.appliedTo inTwoCases = .ok ⟨15, 7, 0⟩ := by decide +kernel
  obtain ⟨hcounts, hrecorded⟩ := appliedTo_countsOnce ofAllEffects inTwoCases
  obtain ⟨sentencedAt, hsentenced, hdeducted, _, _⟩ := hcounts _ heval
  have hdate : inTwoCases.sentencedAt? = some (EnglandAndWales.on 2020 7 13) := by decide +kernel
  obtain rfl := Option.some.inj (hsentenced.symm.trans hdate)
  have hsplit : RecordedAs ofAllEffects
      (ofAllEffects.withEntries .taggedBail ([] ++ bail 3 :: bail 2 :: [])) :=
    .split (e := bail 5) (by decide +kernel) (by decide)
  have hchanged := ReflTransGen.single hsplit |>.tail (.unused { days := 30 })
  exact ⟨heval, hdeducted.symm, by decide +kernel, (hrecorded _ hchanged).trans heval⟩

end Adjustments

end Custody
