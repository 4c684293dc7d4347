import Custody.Config.EnglandAndWales
import Custody.Outcome.EarlyRelease
import Custody.Proofs.Sentence.Assembly
import Custody.Proofs.Sentence.Contiguity

/-!
# The tranche of a booking

The units in the early release scheme are looked at one after the other, up to the first that is
long enough for the second tranche. Units behind it are not looked at, not even when their length
cannot be compared because the calendar ends before the threshold does. That depends on the date of
sentencing alone, and the later the date the sooner it happens, so in units in order of sentencing
no unit behind the first long one matters. When there is an answer, it tells only whether there are
units in the scheme and whether one of them is long enough, wherever they stand.

* **`trancheOf_eq_ok`**: which tranche it is when there is an answer.
* **`trancheOf_isOk_iff`**: when there is an answer for units in order of sentencing.
* **`allocateTranche_perm`**: the tranche does not depend on the order of units.
* **`allocateTranche_existential`**: the tranche by whether there is a unit of a kind.
-/

namespace Custody

open Custody.Calendar

variable {config : Config} {units units' : List Sentence} {tranche tranche' : Tranche}

namespace Tranche

/-- How far a tranche is behind the first ones to be released. -/
def rank : Tranche → Nat
  | tranche0 => 0
  | tranche1 => 1
  | tranche2 => 2

instance : LE Tranche := ⟨fun a b => a.rank ≤ b.rank⟩
instance (a b : Tranche) : Decidable (a ≤ b) := inferInstanceAs (Decidable (a.rank ≤ b.rank))

theorem le_antisymm {a b : Tranche} (hab : a ≤ b) (hba : b ≤ a) : a = b := by
  have hrank : a.rank = b.rank := Nat.le_antisymm hab hba
  cases a <;> cases b <;> first | rfl | cases hrank

end Tranche

/-! ## One unit -/

/-- A unit is long if, from the day it was passed, it lasts for the years from which the second
tranche takes it. -/
def Sentence.IsLong (config : Config) (unit : Sentence) : Prop :=
  ∃ a sentencedAt threshold, unit.aggregate = .ok a ∧ unit.sentencedAt? = some sentencedAt
    ∧ (Duration.of .years config.earlyRelease.trancheTwoYears).lengthInDays sentencedAt
      = .ok threshold
    ∧ threshold ≤ a.totalDays

theorem Sentence.inTrancheTwo_eq_ok_true_iff {unit : Sentence} :
    unit.inTrancheTwo config = .ok true ↔ unit.IsLong config := by
  simp only [inTrancheTwo, Answered.bind_eq_ok, Answered.pure_eq_ok, decide_eq_true_eq]
  constructor
  · rintro ⟨a, ha, threshold, hthreshold, hle⟩
    exact ⟨a, a.sentencedAt, threshold, ha, (aggregate_eq_ok.mp ha).1, hthreshold, hle⟩
  · rintro ⟨a, sentencedAt, threshold, ha, hsentenced, hthreshold, hle⟩
    rw [(aggregate_eq_ok.mp ha).1] at hsentenced
    cases hsentenced
    exact ⟨a, ha, threshold, hthreshold, hle⟩

/-- What can be compared with the threshold can be when it was passed earlier. -/
theorem Sentence.inTrancheTwo_of_le {unit late : Sentence} {a a' : Aggregate} {long : Bool}
    (ha : unit.aggregate = .ok a) (ha' : late.aggregate = .ok a')
    (hle : a.sentencedAt.day ≤ a'.sentencedAt.day) (h : late.inTrancheTwo config = .ok long) :
    ∃ long, unit.inTrancheTwo config = .ok long := by
  simp only [inTrancheTwo, ha, ha', Answered.bind_eq_ok] at h ⊢
  obtain ⟨_, hsame, threshold, hthreshold, _⟩ := h
  cases hsame
  obtain ⟨threshold', hthreshold'⟩ := Duration.lengthInDays_of_le hle hthreshold
  exact ⟨_, a, rfl, threshold', hthreshold', rfl⟩

namespace Outcome

/-! ## The units one after the other -/

theorem trancheOf_cons_of_notMem {unit : Sentence} (h : .sdsEarly ∉ unit.componentTracks) :
    trancheOf config (unit :: units) = trancheOf config units := by
  rw [trancheOf, if_pos (by simpa using h)]

theorem trancheOf_cons_of_mem {unit : Sentence} (h : .sdsEarly ∈ unit.componentTracks) :
    trancheOf config (unit :: units) = .ok tranche
      ↔ unit.inTrancheTwo config = .ok true ∧ tranche = .tranche2
        ∨ unit.inTrancheTwo config = .ok false ∧ ∃ rest, trancheOf config units = .ok rest
          ∧ tranche = if rest = .tranche2 then .tranche2 else .tranche1 := by
  rw [trancheOf, if_neg (by simpa using h)]
  cases unit.inTrancheTwo config with
  | error e => simp [bind, Except.bind]
  | ok long =>
    cases long with
    | true =>
      simp [bind, Except.bind, pure, Except.pure, eq_comm]
    | false =>
      cases trancheOf config units with
      | error e => simp [bind, Except.bind]
      | ok rest => cases rest <;> simp [bind, Except.bind, pure, Except.pure, eq_comm]

/-- **Which tranche it is**: none without a unit in the scheme, and the second with one that is long
enough. Otherwise no unit in the scheme is. -/
theorem trancheOf_eq_ok (h : trancheOf config units = .ok tranche) :
    (tranche = .tranche0 ↔ ∀ u ∈ units, .sdsEarly ∉ u.componentTracks)
      ∧ (tranche = .tranche2 ↔ ∃ u ∈ units, .sdsEarly ∈ u.componentTracks
        ∧ u.inTrancheTwo config = .ok true)
      ∧ (tranche ≠ .tranche2 → ∀ u ∈ units, .sdsEarly ∈ u.componentTracks →
        u.inTrancheTwo config = .ok false) := by
  induction units generalizing tranche with
  | nil =>
    cases h
    simp
  | cons unit units ih =>
    by_cases hmem : .sdsEarly ∈ unit.componentTracks
    · -- a long unit of the scheme settles it, else the others decide
      rcases (trancheOf_cons_of_mem hmem).mp h with ⟨hlong, rfl⟩ | ⟨hshort, rest, hrest, rfl⟩
      · simp [hmem, hlong]
      · obtain ⟨_, hsecond, hothers⟩ := ih hrest
        by_cases hrest2 : rest = .tranche2
        · simp [hmem, hrest2, hsecond.mp hrest2]
        · have hnone := mt hsecond.mpr hrest2
          simpa [hmem, hrest2, hshort, hnone] using hothers hrest2
    · rw [trancheOf_cons_of_notMem hmem] at h
      simpa [hmem] using ih h

/-- Among more units there may be a long one or one in the scheme where there was none before, and
those there were are there still. -/
theorem trancheOf_le_of_subset (hsub : units ⊆ units') (h : trancheOf config units = .ok tranche)
    (h' : trancheOf config units' = .ok tranche') : tranche ≤ tranche' := by
  obtain ⟨hnone, hsecond, _⟩ := trancheOf_eq_ok h
  obtain ⟨hnone', hsecond', _⟩ := trancheOf_eq_ok h'
  cases tranche with
  | tranche0 => exact Nat.zero_le _
  | tranche1 =>
    -- a unit of the scheme is still among them
    have hscheme : tranche' ≠ .tranche0 := fun hzero => by
      have hall := hnone.mpr fun u hu => hnone'.mp hzero u (hsub hu)
      cases hall
    cases tranche' with
    | tranche0 => cases hscheme rfl
    | tranche1 => exact Nat.le_refl _
    | tranche2 => exact Nat.le_succ _
  | tranche2 =>
    obtain ⟨u, hu, hlong⟩ := hsecond.mp rfl
    rw [hsecond'.mpr ⟨u, hsub hu, hlong⟩]
    exact Nat.le_refl _

/-- Units one after the other as they were passed. -/
def InOrder (units : List Sentence) : Prop :=
  units.Pairwise fun u v => ∀ x y, u.sentencedAt? = some x → v.sentencedAt? = some y → x.day ≤ y.day

/-- **When there is an answer.** No unit in front of one that is long enough was passed later, so
its length could be compared as well. -/
theorem trancheOf_isOk_iff (horder : InOrder units)
    (haggregate : ∀ u ∈ units, ∃ a, u.aggregate = .ok a) :
    (∃ tranche, trancheOf config units = .ok tranche)
      ↔ (∃ u ∈ units, .sdsEarly ∈ u.componentTracks ∧ u.inTrancheTwo config = .ok true)
        ∨ ∀ u ∈ units, .sdsEarly ∈ u.componentTracks → u.inTrancheTwo config = .ok false := by
  constructor
  · rintro ⟨tranche, h⟩
    obtain ⟨_, hsecond, hothers⟩ := trancheOf_eq_ok h
    by_cases htranche : tranche = .tranche2
    · exact .inl (hsecond.mp htranche)
    · exact .inr (hothers htranche)
  · intro hdecided
    induction units with
    | nil => exact ⟨.tranche0, rfl⟩
    | cons unit units ih =>
      obtain ⟨hfirst, horder⟩ := List.pairwise_cons.mp horder
      obtain ⟨⟨a, ha⟩, haggregate⟩ := List.forall_mem_cons.mp haggregate
      by_cases hmem : .sdsEarly ∈ unit.componentTracks
      · -- the first unit can be compared, whether it is long enough or another one behind it
        have hcompared : ∃ long, unit.inTrancheTwo config = .ok long := by
          rcases hdecided with ⟨u, hu, _, hlong⟩ | hshort
          · rcases List.mem_cons.mp hu with rfl | hu
            · exact ⟨true, hlong⟩
            · obtain ⟨a', ha'⟩ := haggregate u hu
              have hle := hfirst u hu _ _ (Sentence.aggregate_eq_ok.mp ha).1
                (Sentence.aggregate_eq_ok.mp ha').1
              exact Sentence.inTrancheTwo_of_le ha ha' hle hlong
          · exact ⟨false, hshort unit List.mem_cons_self hmem⟩
        obtain ⟨long, hlong⟩ := hcompared
        cases long with
        | true => exact ⟨.tranche2, (trancheOf_cons_of_mem hmem).mpr (.inl ⟨hlong, rfl⟩)⟩
        | false =>
          have hrest : (∃ u ∈ units, .sdsEarly ∈ u.componentTracks
                ∧ u.inTrancheTwo config = .ok true)
              ∨ ∀ u ∈ units, .sdsEarly ∈ u.componentTracks →
                u.inTrancheTwo config = .ok false := by
            simpa [hmem, hlong] using hdecided
          obtain ⟨rest, hrest⟩ := ih horder haggregate hrest
          exact ⟨_, (trancheOf_cons_of_mem hmem).mpr (.inr ⟨hlong, rest, hrest, rfl⟩)⟩
      · rw [trancheOf_cons_of_notMem hmem]
        exact ih horder haggregate (by simpa [hmem] using hdecided)

/-- **The tranche does not depend on the order of units** that were passed on one date. -/
theorem trancheOf_perm (horder : InOrder units) (horder' : InOrder units')
    (haggregate : ∀ u ∈ units, ∃ a, u.aggregate = .ok a) (hperm : units.Perm units')
    (h : trancheOf config units = .ok tranche) : trancheOf config units' = .ok tranche := by
  have haggregate' : ∀ u ∈ units', ∃ a, u.aggregate = .ok a :=
    fun u hu => haggregate u (hperm.mem_iff.mpr hu)
  have hisOk := (trancheOf_isOk_iff horder haggregate).mp ⟨tranche, h⟩
  simp only [hperm.mem_iff] at hisOk
  obtain ⟨tranche', h'⟩ := (trancheOf_isOk_iff horder' haggregate').mpr hisOk
  rw [h', Tranche.le_antisymm (trancheOf_le_of_subset hperm.symm.subset h' h)
    (trancheOf_le_of_subset hperm.subset h h')]

/-! ## The tranche of a booking -/

/-- Release comes before a date: release on licence, or else release without. -/
def ReleasedBefore (standard : Outcome) (commencement : Date) : Prop :=
  ∃ release, (standard.date? .crd = some release
      ∨ standard.date? .crd = none ∧ standard.date? .ard = some release)
    ∧ release < commencement

theorem releaseDate?_any_iff {standard : Outcome} {commencement : Date} :
    standard.releaseDate?.any (· < commencement) = true
      ↔ standard.ReleasedBefore commencement := by
  rw [releaseDate?, Option.any_eq_true, ReleasedBefore]
  cases standard.date? .crd <;> simp

/-- The units are looked at unless release comes before the scheme. -/
theorem allocateTranche_eq_ok_iff {standard : Outcome} :
    allocateTranche config units standard = .ok tranche
      ↔ standard.ReleasedBefore config.earlyRelease.trancheOneCommencement ∧ tranche = .tranche0
        ∨ ¬ standard.ReleasedBefore config.earlyRelease.trancheOneCommencement
          ∧ trancheOf config units = .ok tranche := by
  rw [allocateTranche, ← releaseDate?_any_iff]
  split
  · next hearly => simp [hearly, eq_comm]
  · next hlate => simp [hlate]

theorem allocateTranche_perm {standard standard' : Outcome}
    (hrelease : standard.releaseDate? = standard'.releaseDate?) (horder : InOrder units)
    (horder' : InOrder units') (haggregate : ∀ u ∈ units, ∃ a, u.aggregate = .ok a)
    (hperm : units.Perm units') (h : allocateTranche config units standard = .ok tranche) :
    allocateTranche config units' standard' = .ok tranche := by
  have hreleased : standard.ReleasedBefore config.earlyRelease.trancheOneCommencement
      ↔ standard'.ReleasedBefore config.earlyRelease.trancheOneCommencement := by
    rw [← releaseDate?_any_iff, hrelease, releaseDate?_any_iff]
  rw [allocateTranche_eq_ok_iff, ← hreleased]
  exact (allocateTranche_eq_ok_iff.mp h).imp_right fun ⟨hlate, hunits⟩ =>
    ⟨hlate, trancheOf_perm horder horder' haggregate hperm hunits⟩

theorem allocateTranche_le_of_subset {standard : Outcome} (hsub : units ⊆ units')
    (h : allocateTranche config units standard = .ok tranche)
    (h' : allocateTranche config units' standard = .ok tranche') : tranche ≤ tranche' := by
  rcases allocateTranche_eq_ok_iff.mp h with ⟨_, rfl⟩ | ⟨hlate, h⟩
  · exact Nat.zero_le _
  · rcases allocateTranche_eq_ok_iff.mp h' with ⟨hearly, _⟩ | ⟨_, h'⟩
    · exact absurd hearly hlate
    · exact trancheOf_le_of_subset hsub h h'

/-- **The tranche of a booking by what there is among its units.** None if release comes before the
scheme or no unit is in the scheme; otherwise the second if one that is in the scheme is long, and
the first if none is. So it is one and the same for all orders of the units that have an answer, and
never lower with more units. -/
theorem allocateTranche_existential {standard : Outcome}
    (h : allocateTranche config units standard = .ok tranche) :
    (tranche = .tranche0
        ↔ standard.ReleasedBefore config.earlyRelease.trancheOneCommencement
          ∨ ∀ u ∈ units, .sdsEarly ∉ u.componentTracks)
      ∧ (tranche ≠ .tranche0 →
        (tranche = .tranche2 ↔ ∃ u ∈ units, .sdsEarly ∈ u.componentTracks ∧ u.IsLong config)
        ∧ (tranche = .tranche1
          ↔ ∀ u ∈ units, .sdsEarly ∈ u.componentTracks → ¬ u.IsLong config))
      ∧ (∀ units' tranche', units.Perm units' →
        allocateTranche config units' standard = .ok tranche' → tranche' = tranche)
      ∧ ∀ units' tranche', units ⊆ units' →
        allocateTranche config units' standard = .ok tranche' → tranche ≤ tranche' := by
  refine ⟨?_, fun hne => ?_, fun units' tranche' hperm h' => ?_,
    fun units' tranche' hsub h' => allocateTranche_le_of_subset hsub h h'⟩
  · rcases allocateTranche_eq_ok_iff.mp h with ⟨hearly, rfl⟩ | ⟨hlate, hunits⟩
    · simp [hearly]
    · rw [(trancheOf_eq_ok hunits).1, or_iff_right hlate]
  · rcases allocateTranche_eq_ok_iff.mp h with ⟨_, hzero⟩ | ⟨_, hunits⟩
    · exact absurd hzero hne
    · have hsecond := (trancheOf_eq_ok hunits).2.1
      simp only [Sentence.inTrancheTwo_eq_ok_true_iff] at hsecond
      -- in the scheme there are but two tranches
      have hfirst : tranche = .tranche1 ↔ tranche ≠ .tranche2 := by
        cases tranche <;> simp at hne ⊢
      refine ⟨hsecond, hfirst.trans ((not_congr hsecond).trans ?_)⟩
      simp only [not_exists, not_and]
  · exact Tranche.le_antisymm (allocateTranche_le_of_subset hperm.symm.subset h' h)
      (allocateTranche_le_of_subset hperm.subset h h')

/-- A determinate sentence of some years on a line of the record, put on a track. -/
def ofYears (line years : UInt32) (track : Track) : Sentence :=
  .single { Single.linked line none with
    sentencedAt := EnglandAndWales.on 2024 6 1
    track := some track
    term := .standard {
      duration := .of .years years
      isSdsPlus := false
      isSection250 := false
      exclusion := .notExcluded } }

/-- Four years outside the scheme, and one in it after them. -/
def fiveYearChain : Sentence := .chain [ofYears 3 4 .sdsStandard, ofYears 4 1 .sdsEarly] none

/-- Release without licence in the middle of 2026. -/
def releasedIn2026 : Outcome :=
  empty.record .ard (.of (EnglandAndWales.on 2026 6 1) (EnglandAndWales.on 2026 6 1))

/-- Four years in the scheme are for the first tranche, with ten years outside it as well. A chain
of five years makes it the second in any order, since one of its components is in the scheme. -/
theorem allocateTranche_existential_fiveYearChain :
    allocateTranche EnglandAndWales.config [ofYears 1 10 .sdsPlus, ofYears 2 4 .sdsEarly]
        releasedIn2026 = .ok .tranche1
      ∧ ¬ (ofYears 2 4 .sdsEarly).IsLong EnglandAndWales.config
      ∧ allocateTranche EnglandAndWales.config
          [fiveYearChain, ofYears 1 10 .sdsPlus, ofYears 2 4 .sdsEarly] releasedIn2026
        = .ok .tranche2
      ∧ fiveYearChain.IsLong EnglandAndWales.config
      ∧ (∀ units tranche,
        [fiveYearChain, ofYears 1 10 .sdsPlus, ofYears 2 4 .sdsEarly].Perm units →
          allocateTranche EnglandAndWales.config units releasedIn2026 = .ok tranche →
          tranche = .tranche2)
      ∧ Tranche.tranche1 ≤ .tranche2 := by
  have hshort : allocateTranche EnglandAndWales.config
      [ofYears 1 10 .sdsPlus, ofYears 2 4 .sdsEarly] releasedIn2026 = .ok .tranche1 := by
    decide +kernel
  have hlong : allocateTranche EnglandAndWales.config
      [fiveYearChain, ofYears 1 10 .sdsPlus, ofYears 2 4 .sdsEarly] releasedIn2026
        = .ok .tranche2 := by
    decide +kernel
  obtain ⟨_, hfirst, _, hmore⟩ := allocateTranche_existential hshort
  obtain ⟨_, hsecond, hreordered, _⟩ := allocateTranche_existential hlong
  have hfour := (hfirst (by decide)).2.mp rfl (ofYears 2 4 .sdsEarly) (by simp) (by decide)
  obtain ⟨u, hu, hscheme, hu'⟩ := (hsecond (by decide)).1.mp rfl
  have hchain : u = fiveYearChain := by
    rcases List.mem_cons.mp hu with rfl | hu
    · rfl
    · rcases List.mem_pair.mp hu with rfl | rfl
      · exact absurd hscheme (by decide)
      · exact absurd hu' hfour
  exact ⟨hshort, hfour, hlong, hchain ▸ hu', hreordered,
    hmore _ _ (List.subset_cons_self _ _) hlong⟩

end Outcome

end Custody
