import Custody.Config.EnglandAndWales
import Custody.Proofs.Calendar.Reach
import Mathlib.Logic.Relation

/-!
# Going back to a working day

A date that is a weekend or a bank holiday is gone back from day by day, up to the first working
day that is met. There may be any number of bank holidays, on any days, so the only bound on the way
back is the first day of the supported range: every step takes one off the days before the date, and
where all of these are off there is no working day to answer with.

* **`StepsBack.wellFounded`**: going back comes to an end.
* **`latestWorkingDay?_eq`**: the search for a working day, a step at a time.
* **`exists_goesBack`**, **`latestWorkingDay?_eq_of_goesBack`**: where going back ends, and that the
  search finds what it ends at.
* **`previousWorkingDay_latest`**: the answer, why a date was moved, and what moving keeps.
-/

namespace Custody.Calendar

open Relation

variable {holidays : List Date} {d before e : Date}

/-! ## Days off -/

/-- Whether a date is a weekend or a bank holiday. -/
def IsOff (holidays : List Date) (d : Date) : Prop :=
  d.isWeekend = true ∨ d ∈ holidays

instance (holidays : List Date) (d : Date) : Decidable (IsOff holidays d) :=
  inferInstanceAs (Decidable (_ ∨ _))

theorem isWorkingDay_eq_false_iff : isWorkingDay holidays d = false ↔ IsOff holidays d := by
  unfold isWorkingDay dayType IsOff
  split
  · next hweekend => simp [hweekend]
  · next hweekend =>
    split
    · next hholiday => simpa [hweekend] using hholiday
    · next hholiday => simpa [hweekend] using hholiday

theorem isWorkingDay_eq_true_iff : isWorkingDay holidays d = true ↔ ¬ IsOff holidays d := by
  rw [← isWorkingDay_eq_false_iff, Bool.not_eq_false]

theorem dayType_eq_workingDay_iff : dayType holidays d = .workingDay ↔ ¬ IsOff holidays d := by
  rw [← isWorkingDay_eq_true_iff, isWorkingDay, decide_eq_true_eq]

/-! ## Going back -/

/-- From a day that is off one goes back to the day before it, if the range has it. -/
def StepsBack (holidays : List Date) (d before : Date) : Prop :=
  IsOff holidays d ∧ d.addDays? (-1) = some before

theorem StepsBack.day_eq (h : StepsBack holidays d before) : before.day + 1 = d.day := by
  have hday := Date.addDays?_eq_some.mp h.2
  omega

/-- **Going back comes to an end**: the days since the first of the range become fewer. -/
theorem StepsBack.wellFounded (holidays : List Date) :
    WellFounded fun before d => StepsBack holidays d before := by
  refine Subrelation.wf ?_ (measure fun d : Date => (d.day - firstDay).toNat).wf
  intro before d h
  have hday := h.day_eq
  have hfirst := before.firstDay_le
  show (before.day - firstDay).toNat < (d.day - firstDay).toNat
  omega

/-- Any number of steps back. -/
abbrev GoesBack (holidays : List Date) : Date → Date → Prop :=
  ReflTransGen (StepsBack holidays)

/-- There is no day before the first of the range. -/
theorem addDays?_neg_one_eq_none_iff : d.addDays? (-1) = none ↔ d.day = firstDay := by
  have hfirst := d.firstDay_le
  have hlast := d.le_lastDay
  unfold Date.addDays? Date.ofDay?
  split
  · next hin => simp only [reduceCtorEq, false_iff]; omega
  · next hout => simp only [true_iff]; omega

/-- **Where going back ends**: at a working day, or at a first day of the range that is off. -/
theorem exists_goesBack (holidays : List Date) (d : Date) :
    ∃ e, GoesBack holidays d e ∧ (IsOff holidays e → e.addDays? (-1) = none) := by
  induction d using (StepsBack.wellFounded holidays).induction with
  | h d ih =>
    by_cases hoff : IsOff holidays d
    · cases hback : d.addDays? (-1) with
      | none => exact ⟨d, .refl, fun _ => hback⟩
      | some before =>
        obtain ⟨e, hgoes, hend⟩ := ih before ⟨hoff, hback⟩
        exact ⟨e, .head ⟨hoff, hback⟩ hgoes, hend⟩
    · exact ⟨d, .refl, fun h => absurd h hoff⟩

/-- Going back passes days that are off alone. -/
theorem GoesBack.le_and_off (h : GoesBack holidays d e) :
    e ≤ d ∧ ∀ f : Date, e < f → f ≤ d → IsOff holidays f := by
  simp only [Date.le_iff, Date.lt_iff]
  induction h using ReflTransGen.head_induction_on with
  | refl => exact ⟨le_rfl, fun f hlt hle => by omega⟩
  | @head d before hstep _ ih =>
    obtain ⟨hle, hoff⟩ := ih
    have hday := hstep.day_eq
    refine ⟨by omega, fun f hlt hf => ?_⟩
    -- a day between is this one, which is off, or one that is passed later on
    by_cases hsame : f = d
    · exact hsame ▸ hstep.1
    · rw [Date.ext_iff] at hsame
      exact hoff f hlt (by omega)

/-! ## The search for a working day -/

/-- **The search, a step at a time**: a working day is found at once, and a day that is off is gone
back from. -/
theorem latestWorkingDay?_eq (holidays : List Date) (d : Date) : latestWorkingDay? holidays d
    = if isWorkingDay holidays d then some d
      else (d.addDays? (-1)).bind (latestWorkingDay? holidays) := by
  have hfirst := d.firstDay_le
  have hself {n : Nat} (hn : firstDay + (n : Int) = d.day) :
      Date.ofDay? (firstDay + (n : Int)) = some d := by
    rw [hn, Date.ofDay?_eq_some_iff]
  rw [latestWorkingDay?]
  -- the search has as many steps as there are days down to the first of the range
  cases hn : (d.day - firstDay).toNat with
  | zero =>
    have hd := hself (n := 0) (by omega)
    have hnone : d.addDays? (-1) = none := addDays?_neg_one_eq_none_iff.mpr (by omega)
    rw [Int.ofNat_zero, Int.add_zero] at hd
    rw [latestWorkingDayTo?, hd, Option.filter_some, hnone, Option.bind_none]
  | succ n =>
    have hd := hself (n := n + 1) (by omega)
    have hlast := d.le_lastDay
    have hback : d.addDays? (-1) = some ⟨d.day - 1, by omega, by omega⟩ :=
      Date.addDays?_eq_some.mpr rfl
    have hrest : (d.day - 1 - firstDay).toNat = n := by omega
    rw [latestWorkingDayTo?, hd, Option.filter_some, hback, Option.bind_some, latestWorkingDay?,
      hrest]
    cases isWorkingDay holidays d <;> rfl

theorem latestWorkingDay?_of_not_isOff (h : ¬ IsOff holidays d) :
    latestWorkingDay? holidays d = some d := by
  rw [latestWorkingDay?_eq, if_pos (isWorkingDay_eq_true_iff.mpr h)]

/-- A step back does not change what is found. -/
theorem latestWorkingDay?_of_stepsBack (h : StepsBack holidays d before) :
    latestWorkingDay? holidays d = latestWorkingDay? holidays before := by
  have hoff : isWorkingDay holidays d = false := isWorkingDay_eq_false_iff.mpr h.1
  rw [latestWorkingDay?_eq holidays d, hoff, h.2, Option.bind_some, if_neg Bool.false_ne_true]

/-- **Nor does any number of them.** -/
theorem latestWorkingDay?_eq_of_goesBack (h : GoesBack holidays d e) :
    latestWorkingDay? holidays d = latestWorkingDay? holidays e := by
  induction h using ReflTransGen.head_induction_on with
  | refl => rfl
  | head hstep _ ih => exact (latestWorkingDay?_of_stepsBack hstep).trans ih

/-- **What is found is the working day at which going back ends.** -/
theorem latestWorkingDay?_eq_some_iff :
    latestWorkingDay? holidays d = some e ↔ GoesBack holidays d e ∧ ¬ IsOff holidays e := by
  constructor
  · intro h
    obtain ⟨last, hgoes, hend⟩ := exists_goesBack holidays d
    rw [latestWorkingDay?_eq_of_goesBack hgoes] at h
    -- the walk ends on a working day, or else before the range
    by_cases hoff : IsOff holidays last
    · rw [latestWorkingDay?_eq, isWorkingDay_eq_false_iff.mpr hoff, hend hoff,
        Option.bind_none] at h
      cases h
    · rw [latestWorkingDay?_of_not_isOff hoff, Option.some.injEq] at h
      exact h ▸ ⟨hgoes, hoff⟩
  · rintro ⟨hgoes, hworking⟩
    rw [latestWorkingDay?_eq_of_goesBack hgoes, latestWorkingDay?_of_not_isOff hworking]

/-! ## The answer -/

/-- A working day that no other lies between it and a date. -/
structure IsLatestWorkingDay (holidays : List Date) (d e : Date) : Prop where
  le : e ≤ d
  working : ¬ IsOff holidays e
  off_after : ∀ f : Date, e < f → f ≤ d → IsOff holidays f

/-- A date that is moved as it should be: back to the latest working day, and with the kind of day
that it is as the reason, if it is moved at all. -/
structure MovedBack (holidays : List Date) (d : Date) (moved : MovedDate) : Prop where
  original : moved.original = d
  goesBack : GoesBack holidays d moved.date
  latest : IsLatestWorkingDay holidays d moved.date
  reason_eq_none : moved.reason = none ↔ moved.date = d
  reason_of_moved : moved.date ≠ d → moved.reason = some (dayType holidays d)

theorem previousWorkingDay_eq_ok {moved : MovedDate} :
    previousWorkingDay holidays d = .ok moved ↔ latestWorkingDay? holidays d = some moved.date
      ∧ moved = ⟨d, moved.date, if dayType holidays d = .workingDay then none
        else some (dayType holidays d)⟩ := by
  simp only [previousWorkingDay, Answered.bind_eq_ok, Answered.orFail_eq_ok, Answered.pure_eq_ok]
  constructor
  · rintro ⟨e, he, rfl⟩
    exact ⟨he, rfl⟩
  · rintro ⟨he, hmoved⟩
    exact ⟨moved.date, he, hmoved.symm⟩

theorem movedBack_of_previousWorkingDay {moved : MovedDate}
    (h : previousWorkingDay holidays d = .ok moved) : MovedBack holidays d moved := by
  obtain ⟨hfound, hmoved⟩ := previousWorkingDay_eq_ok.mp h
  obtain ⟨hgoes, hworking⟩ := latestWorkingDay?_eq_some_iff.mp hfound
  obtain ⟨hle, hoff⟩ := GoesBack.le_and_off hgoes
  -- a date is off exactly if it is moved
  have hstays : moved.date = d ↔ ¬ IsOff holidays d := by
    refine ⟨fun heq => heq ▸ hworking, fun hstay => ?_⟩
    rw [latestWorkingDay?_of_not_isOff hstay, Option.some.injEq] at hfound
    exact hfound.symm
  have hreason := congrArg MovedDate.reason hmoved
  simp only [dayType_eq_workingDay_iff, ← hstays] at hreason
  refine ⟨congrArg MovedDate.original hmoved, hgoes, ⟨hle, hworking, hoff⟩, ?_, ?_⟩
  · rw [hreason]
    by_cases hsame : moved.date = d
    · rw [if_pos hsame]
      exact iff_of_true rfl hsame
    · rw [if_neg hsame]
      exact iff_of_false (Option.some_ne_none _) hsame
  · intro hne
    rw [hreason, if_neg hne]

theorem previousWorkingDay_eq_error_iff {failure : Failure} :
    previousWorkingDay holidays d = .error failure
      ↔ failure = .breach (.noWorkingDay d) ∧ ∀ e : Date, e ≤ d → IsOff holidays e := by
  simp only [← isWorkingDay_eq_false_iff]
  rw [← latestWorkingDay?_eq_none_iff, previousWorkingDay]
  cases latestWorkingDay? holidays d with
  | none => simp [orFail, bind, Except.bind, eq_comm]
  | some e => simp [orFail, bind, Except.bind, pure, Except.pure]

/-- **A date is moved to the latest working day.** Going back comes to an end, and there is a
failure exactly if all days up to the date are off. Otherwise the date is moved back to the latest
working day, the reason given if and only if it moves. A date that has been moved stays where it is,
and a later date is moved as well, and no further back. -/
theorem previousWorkingDay_latest (holidays : List Date) :
    (WellFounded fun before d => StepsBack holidays d before)
      ∧ (∀ d failure, previousWorkingDay holidays d = .error failure
        ↔ failure = .breach (.noWorkingDay d) ∧ ∀ e : Date, e ≤ d → IsOff holidays e)
      ∧ (∀ d moved, previousWorkingDay holidays d = .ok moved →
        MovedBack holidays d moved
          ∧ previousWorkingDay holidays moved.date = .ok ⟨moved.date, moved.date, none⟩)
      ∧ ∀ d d' moved, d ≤ d' → previousWorkingDay holidays d = .ok moved →
        ∃ moved', previousWorkingDay holidays d' = .ok moved' ∧ moved.date ≤ moved'.date := by
  refine ⟨StepsBack.wellFounded holidays, fun d failure => previousWorkingDay_eq_error_iff,
    fun d moved h => ?_, fun d d' moved hle h => ?_⟩
  · have hmoved := movedBack_of_previousWorkingDay h
    refine ⟨hmoved, previousWorkingDay_eq_ok.mpr ⟨?_, ?_⟩⟩
    · exact latestWorkingDay?_of_not_isOff hmoved.latest.working
    · rw [if_pos (dayType_eq_workingDay_iff.mpr hmoved.latest.working)]
  · have hlatest := (movedBack_of_previousWorkingDay h).latest
    -- a later start reaches at least the day that was found from the earlier one
    cases h' : previousWorkingDay holidays d' with
    | error failure =>
      have hearlier : moved.date ≤ d' := Std.le_trans hlatest.le hle
      have hoff := (previousWorkingDay_eq_error_iff.mp h').2 moved.date hearlier
      exact absurd hoff hlatest.working
    | ok moved' => exact ⟨moved', rfl, previousWorkingDay_mono hle h h'⟩

/-- The first day of the range, and two days before a weekend. -/
def overChristmas : List Date :=
  [.earliest, EnglandAndWales.on 2031 12 25, EnglandAndWales.on 2031 12 26]

/-- A Saturday is moved back over two bank holidays, the Sunday after it is not moved further, and
from the first day of the range there is no way back. -/
theorem previousWorkingDay_latest_overChristmas :
    previousWorkingDay overChristmas (EnglandAndWales.on 2031 12 27)
        = .ok ⟨EnglandAndWales.on 2031 12 27, EnglandAndWales.on 2031 12 24, some .weekend⟩
      ∧ IsLatestWorkingDay overChristmas (EnglandAndWales.on 2031 12 27)
        (EnglandAndWales.on 2031 12 24)
      ∧ previousWorkingDay overChristmas (EnglandAndWales.on 2031 12 24)
        = .ok ⟨EnglandAndWales.on 2031 12 24, EnglandAndWales.on 2031 12 24, none⟩
      ∧ EnglandAndWales.on 2031 12 27 ≤ EnglandAndWales.on 2031 12 28
      ∧ (∃ moved, previousWorkingDay overChristmas (EnglandAndWales.on 2031 12 28) = .ok moved
        ∧ EnglandAndWales.on 2031 12 24 ≤ moved.date)
      ∧ previousWorkingDay overChristmas .earliest
        = .error (.breach (.noWorkingDay .earliest)) := by
  obtain ⟨_, hfails, hmoves, hmono⟩ := previousWorkingDay_latest overChristmas
  have heval : previousWorkingDay overChristmas (EnglandAndWales.on 2031 12 27)
      = .ok ⟨EnglandAndWales.on 2031 12 27, EnglandAndWales.on 2031 12 24, some .weekend⟩ := by
    rfl
  obtain ⟨hmoved, hstays⟩ := hmoves _ _ heval
  have hsunday : EnglandAndWales.on 2031 12 27 ≤ EnglandAndWales.on 2031 12 28 := by decide +kernel
  refine ⟨heval, hmoved.latest, hstays, hsunday, hmono _ _ _ hsunday heval, ?_⟩
  refine (hfails _ _).mpr ⟨rfl, fun e he => .inr ?_⟩
  rw [Date.eq_earliest_of_le he]
  exact List.mem_cons_self

end Custody.Calendar
