import Custody.Config.EnglandAndWales
import Custody.Proofs.Calendar.Period
import Mathlib.Order.Bounds.Basic

/-!
# Whole months and days

The period between two dates counts the most whole months that do not pass the end, and the days
that are left. How far a number of months leads is `Date.dayInMonths`, whether the range has a date
there or not. A month more always leads further, and by 31 days at most, which is why the most
months are those before the first that pass the end, and why the days that are left are fewer
than 31.

* **`Date.dayInMonths_lt_iff`**, **`Date.dayInMonths_succ_le`**: a month more.
* **`Duration.searchMonths_isGreatest`**: the most months by a search that takes one off at a time.
* **`Duration.wholeMonths_isGreatest`**: the whole months are the most.
* **`Duration.between_isWholeMonths`**: the period between two dates.
-/

namespace Custody

open Custody.Calendar

namespace Calendar.Date

/-! ## One month more -/

/-- One month more leads to a later month. -/
theorem dayInMonths_lt_succ (d : Date) (n : Int) : d.dayInMonths n < d.dayInMonths (n + 1) := by
  have hoffset := d.offset_bounds
  have hlength := monthLength_bounds (d.month + n)
  have hnext := monthLength_bounds (d.month + (n + 1))
  unfold dayInMonths
  rw [← Int.add_assoc] at hnext ⊢
  unfold monthLength at hlength hnext ⊢
  omega

theorem dayInMonths_lt_iff (d : Date) {m n : Int} :
    d.dayInMonths m < d.dayInMonths n ↔ m < n :=
  (strictMono_int_of_lt_succ d.dayInMonths_lt_succ).lt_iff_lt

/-- One month more leads no more than 31 days further: where the earlier month is too short for the
day, it stops at its end, and the day is the 31st of the next one at most. -/
theorem dayInMonths_succ_le (d : Date) (n : Int) :
    d.dayInMonths (n + 1) ≤ d.dayInMonths n + 31 := by
  have hlength := monthLength_bounds (d.month + n)
  have hnext := monthLength_bounds (d.month + (n + 1))
  unfold dayInMonths
  rw [← Int.add_assoc] at hnext ⊢
  unfold monthLength at hlength hnext ⊢
  omega

/-- Months that do not lead past a date lead to one of the range. -/
theorem addMonths?_of_dayInMonths_le {d e : Date} {n : Int} (hn : 0 ≤ n)
    (h : d.dayInMonths n ≤ e.day) : ∃ reached, d.addMonths? n = some reached ∧ reached ≤ e := by
  have hback := day_le_dayInMonths (d := d) hn
  have hfirst := d.firstDay_le
  have hlast := e.le_lastDay
  exact ⟨⟨d.dayInMonths n, by omega, by omega⟩, addMonths?_eq_some.mpr rfl, h⟩

end Calendar.Date

namespace Duration

variable {start stop : Date} {n : Nat}

/-! ## The most months -/

/-- Whether so many months at once lead from one date to another or to one before it. -/
def MonthsFit (start stop : Date) (n : Nat) : Prop :=
  ∃ reached, start.addMonths? n = some reached ∧ reached ≤ stop

theorem monthsFit_iff : MonthsFit start stop n ↔ start.dayInMonths n ≤ stop.day := by
  constructor
  · rintro ⟨reached, hreached, hle⟩
    rw [← Date.addMonths?_eq_some.mp hreached]
    exact hle
  · exact Date.addMonths?_of_dayInMonths_le (by omega)

/-- No more than the calendar months between two dates fit. -/
theorem MonthsFit.le_calendar (h : MonthsFit start stop n) :
    n ≤ (stop.month - start.month).toNat := by
  obtain ⟨reached, hreached, hle⟩ := h
  have hmonth := (Date.month_of_addMonths? hreached).1
  have hlater := Date.month_le (Date.le_iff.mp hle)
  omega

theorem monthsFit_zero (h : start < stop) : MonthsFit start stop 0 := by
  rw [monthsFit_iff, Int.ofNat_zero, Date.dayInMonths_zero]
  exact Int.le_of_lt h

/-- A search for the most months that fit, from a number of them down, one month less at a time
while they lead past the end or out of the range. -/
def searchMonths (start stop : Date) : Nat → Nat
  | 0 => 0
  | n + 1 =>
    if (start.addMonths? (n + 1 : Nat)).all (stop < ·) then searchMonths start stop n else n + 1

theorem all_lt_addMonths?_iff :
    (start.addMonths? n).all (stop < ·) = true ↔ ¬ MonthsFit start stop n := by
  unfold MonthsFit
  cases start.addMonths? n with
  | none => simp
  | some reached => simp [Date.le_iff, Date.lt_iff]

/-- **The search finds the most months that fit**, by induction on where it starts. -/
theorem searchMonths_isGreatest (h : start < stop) (n : Nat) :
    IsGreatest {k | k ≤ n ∧ MonthsFit start stop k} (searchMonths start stop n) := by
  induction n with
  | zero => exact ⟨⟨le_rfl, monthsFit_zero h⟩, fun k hk => hk.1⟩
  | succ n ih =>
    rw [searchMonths]
    -- the count at hand fits, or the search goes on below it
    split
    · next hpast =>
      refine ⟨⟨ih.1.1.trans (Nat.le_succ n), ih.1.2⟩, fun k hk => ih.2 ⟨?_, hk.2⟩⟩
      have hne : k ≠ n + 1 := by
        rintro rfl
        exact all_lt_addMonths?_iff.mp hpast hk.2
      have hle := hk.1
      omega
    · next hfits =>
      rw [all_lt_addMonths?_iff, not_not] at hfits
      exact ⟨⟨le_rfl, hfits⟩, fun k hk => hk.1⟩

/-- One more than the whole months leads past the end. -/
theorem lt_dayInMonths_wholeMonths (h : start < stop) :
    stop.day < start.dayInMonths (wholeMonths start stop + 1) := by
  rw [Date.lt_iff] at h
  have hmonth : start.month ≤ stop.month := Date.month_le h.le
  obtain ⟨last, hlast⟩ := Date.exists_addMonths?_of_month_le (d := start)
    (n := stop.month - start.month) (e := stop) (by omega) (by omega)
  have hday := Date.addMonths?_eq_some.mp hlast
  rw [wholeMonths_eq hlast]
  split
  · next hpast =>
    -- the calendar months lead past the end, so there is one at least
    rw [Date.lt_iff, hday] at hpast
    have hsome : stop.month - start.month ≠ 0 := by
      intro hzero
      rw [hzero, Date.dayInMonths_zero] at hpast
      omega
    rwa [Int.toNat_of_nonneg (by omega), Int.sub_add_cancel]
  · next hnot =>
    -- one more leads to the month after the end
    rw [Int.toNat_of_nonneg (by omega)]
    have hafter : stop.day < monthStart (stop.month + 1) := lt_monthStart_monthOf stop.day
    have hoffset := start.offset_bounds
    have hlength := monthLength_bounds (stop.month + 1)
    unfold Date.dayInMonths
    rw [show start.month + (stop.month - start.month + 1) = stop.month + 1 by omega]
    omega

/-- **The whole months are the most that fit.** -/
theorem wholeMonths_isGreatest (h : start < stop) :
    IsGreatest {n | MonthsFit start stop n} (wholeMonths start stop) := by
  obtain ⟨reached, hreached, hle, _⟩ := exists_wholeMonths h
  refine ⟨⟨reached, hreached, hle⟩, fun n hn => ?_⟩
  have hday := (monthsFit_iff.mp hn).trans_lt (lt_dayInMonths_wholeMonths h)
  have hfewer := start.dayInMonths_lt_iff.mp hday
  omega

/-- The search from the calendar months down comes to the whole months. -/
theorem searchMonths_eq_wholeMonths (h : start < stop) :
    searchMonths start stop (stop.month - start.month).toNat = wholeMonths start stop := by
  have hall : {k | k ≤ (stop.month - start.month).toNat ∧ MonthsFit start stop k}
      = {k | MonthsFit start stop k} := by
    ext k
    exact and_iff_right_of_imp MonthsFit.le_calendar
  have hsearch := searchMonths_isGreatest h (stop.month - start.month).toNat
  rw [hall] at hsearch
  exact hsearch.unique (wholeMonths_isGreatest h)

/-! ## The period between two dates -/

/-- The months of a duration, twelve to a year. -/
def monthsInAll (d : Duration) : Nat :=
  12 * (d.count .years).toNat + (d.count .months).toNat

theorem get?_counts_plus {d : Duration} {u v : DurationUnit} (h : v ≠ u) (n : UInt32) :
    (d.plus u n).counts.get? v = d.counts.get? v := by
  unfold plus
  split
  · rfl
  · rw [Table.get?_insert, if_neg h]

/-- A period in whole months and days: years of twelve months, the most months that do not pass the
end, and the days that are left of less than a month. -/
structure IsWholeMonths (start stop : Date) (period : Duration) : Prop where
  noWeeks : period.counts.get? .weeks = none
  months_le : period.count .months ≤ 11
  days_le : period.count .days ≤ 30
  greatest : IsGreatest {n | MonthsFit start stop n} period.monthsInAll
  next_passes : ∀ reached, start.addMonths? (period.monthsInAll + 1) = some reached → stop < reached
  remainder : ∃ reached, start.addMonths? period.monthsInAll = some reached
    ∧ reached.daysUntil stop = (period.count .days).toNat

/-- **The period between two dates is in whole months and days**, and its months are found by a
search from the calendar months between the dates down. -/
theorem between_isWholeMonths : ∀ start stop : Date, start < stop →
    IsWholeMonths start stop (between start stop)
      ∧ (between start stop).monthsInAll
        = searchMonths start stop (stop.month - start.month).toNat := by
  intro start stop h
  obtain ⟨reached, hreached, hle, _⟩ := exists_wholeMonths h
  obtain ⟨hyears, hmonths, _, hdays⟩ := counts_between h hreached hle
  have hall : (between start stop).monthsInAll = wholeMonths start stop := by
    unfold monthsInAll
    omega
  have hpast := lt_dayInMonths_wholeMonths h
  have hnear := start.dayInMonths_succ_le (wholeMonths start stop)
  have hday := Date.addMonths?_eq_some.mp hreached
  -- the months short of another one are the greatest that fit
  refine ⟨⟨?_, ?_, ?_, ?_, ?_, ?_⟩, ?_⟩
  · rw [between_eq h hreached, get?_counts_plus (by decide), get?_counts_plus (by decide),
      get?_counts_plus (by decide)]
    rfl
  · rw [UInt32.le_iff_toNat_le, hmonths]
    show wholeMonths start stop % 12 ≤ 11
    omega
  · rw [UInt32.le_iff_toNat_le]
    show ((between start stop).count .days).toNat ≤ 30
    omega
  · rw [hall]
    exact wholeMonths_isGreatest h
  · intro next hnext
    rw [hall] at hnext
    rw [Date.lt_iff, Date.addMonths?_eq_some.mp hnext]
    exact hpast
  · rw [hall]
    exact ⟨reached, hreached, hdays.symm⟩
  · rw [hall, searchMonths_eq_wholeMonths h]

/-- From a 31 January the two calendar months up to 1 March lead past it, so the search takes one
off; from the first day of the range to the last there is no month more to go. -/
theorem between_isWholeMonths_toMarch :
    EnglandAndWales.on 2023 1 31 < EnglandAndWales.on 2023 3 1
      ∧ (between (EnglandAndWales.on 2023 1 31) (EnglandAndWales.on 2023 3 1)).text
        = "1 months 1 days"
      ∧ IsWholeMonths (EnglandAndWales.on 2023 1 31) (EnglandAndWales.on 2023 3 1)
        (between (EnglandAndWales.on 2023 1 31) (EnglandAndWales.on 2023 3 1))
      ∧ searchMonths (EnglandAndWales.on 2023 1 31) (EnglandAndWales.on 2023 3 1) 2 = 1
      ∧ Date.earliest < Date.latest
      ∧ IsWholeMonths .earliest .latest (between .earliest .latest)
      ∧ Date.earliest.addMonths? ((between .earliest .latest).monthsInAll + 1) = none := by
  have hmarch : EnglandAndWales.on 2023 1 31 < EnglandAndWales.on 2023 3 1 := by decide
  have hrange : Date.earliest < Date.latest := by decide
  obtain ⟨hperiod, hsearch⟩ := between_isWholeMonths _ _ hmarch
  have hone : (between (EnglandAndWales.on 2023 1 31)
      (EnglandAndWales.on 2023 3 1)).monthsInAll = 1 := by
    decide +kernel
  exact ⟨hmarch, by decide +kernel, hperiod, hsearch.symm.trans hone, hrange,
    (between_isWholeMonths _ _ hrange).1, by decide +kernel⟩

end Duration

end Custody
