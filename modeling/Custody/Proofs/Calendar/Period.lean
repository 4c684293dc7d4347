import Custody.Proofs.Calendar.Reach

/-!
# Periods

The period from one date up to another counts the whole months that do not pass the other date,
twelve of them as a year, and the days from there. It is counted with all months taken at once, and
walked with the years first. Either way stops at the end of a month that is too short, but the walk
may do so where the count does not: from a 29 February by whole years to a February of 28 days, and
from there by months that lead to a longer one. That is the one way in which a period falls short of
its end (`Date.LosesLeapDay`), and it does so by a day.

* **`Date.addMonths?_years_months`**: years and then months against all months at once.
* **`Duration.exists_wholeMonths`**: the whole months stay in range, and do not pass the end.
* **`Duration.between_leadsUpTo`**: where the period between two dates leads.
* **`Duration.IsDays`**: durations that are as long from any anchor.
-/

namespace Custody

open Custody.Calendar

namespace Calendar

/-! ## Months -/

/-- A day is in one month only. -/
theorem monthOf_eq {m n : Int} (hlow : monthStart m ≤ n) (hhigh : n < monthStart (m + 1)) :
    monthOf n = m := by
  have hstart := monthStart_le_monthOf n
  have hend := lt_monthStart_monthOf n
  rcases lt_trichotomy (monthOf n) m with hlt | heq | hgt
  · have hbefore : monthStart (monthOf n + 1) ≤ monthStart m := monthStart_le hlt
    omega
  · exact heq
  · have hafter : monthStart (m + 1) ≤ monthStart (monthOf n) := monthStart_le hgt
    omega

/-- Counted from March, every month but February begins as many days after the one before it. -/
theorem monthLength_of_not_february {m : Int} (h : m % 12 ≠ 1) : monthLength m
    = (153 * ((m - 2) % 12 + 1) + 2) / 5 - (153 * ((m - 2) % 12) + 2) / 5 := by
  have hyear : (m + 1 - 2) / 12 = (m - 2) / 12 := by omega
  have hnext : (m + 1 - 2) % 12 = (m - 2) % 12 + 1 := by omega
  simp only [monthLength, monthStart, hyear, hnext]
  omega

theorem thirty_le_monthLength {m : Int} (h : m % 12 ≠ 1) : 30 ≤ monthLength m := by
  rw [monthLength_of_not_february h]
  omega

theorem monthLength_add_years {m : Int} (h : m % 12 ≠ 1) (years : Int) :
    monthLength (m + 12 * years) = monthLength m := by
  have hsame : (m + 12 * years - 2) % 12 = (m - 2) % 12 := by omega
  rw [monthLength_of_not_february h, monthLength_of_not_february (by omega), hsame]

theorem monthLength_february {m : Int} (h : m % 12 = 1) :
    monthLength m = 28 ∨ monthLength m = 29 := by
  have hyear : (m + 1 - 2) / 12 = (m - 2) / 12 + 1 := by omega
  have hmarch : (m + 1 - 2) % 12 = 0 := by omega
  have hlast : (m - 2) % 12 = 11 := by omega
  have hleap := leapDays_succ ((m - 2) / 12)
  simp only [monthLength, monthStart, hyear, hmarch, hlast]
  omega

namespace Date

variable {d e : Date} {n : Int}

theorem day_lt_of_month_lt (h : d.month < e.month) : d.day < e.day := by
  by_contra hle
  have hmonth : e.month ≤ d.month := month_le (by omega)
  omega

theorem month_of_addMonths? (h : d.addMonths? n = some e) :
    e.month = d.month + n ∧ e.offset = min d.offset (monthLength (d.month + n) - 1) := by
  have hday := addMonths?_eq_some.mp h
  have hoffset := d.offset_bounds
  have hlength := monthLength_bounds (d.month + n)
  unfold dayInMonths at hday
  -- the day falls within the month that is counted to
  have hmonth : e.month = d.month + n := by
    refine monthOf_eq (by omega) ?_
    unfold monthLength at hday hlength
    omega
  refine ⟨hmonth, ?_⟩
  unfold offset at hoffset ⊢
  rw [hmonth]
  unfold offset at hday
  omega

/-- No months later is the same day. -/
theorem dayInMonths_zero (d : Date) : d.dayInMonths 0 = d.day := by
  have hbounds := d.offset_bounds
  have hday := d.day_eq
  rw [dayInMonths, Int.add_zero]
  omega

/-- The range is whole months. -/
theorem month_bounds (d : Date) : 12 * -262143 ≤ d.month ∧ d.month < 12 * 262143 := by
  have hfirst := d.firstDay_le
  have hlast := d.le_lastDay
  have hstart : monthStart d.month ≤ d.day := monthStart_le_monthOf d.day
  have hend : d.day < monthStart (d.month + 1) := lt_monthStart_monthOf d.day
  unfold firstDay at hfirst
  unfold Calendar.lastDay at hlast
  -- the range starts and ends with a year, and months do not overlap
  constructor
  · by_contra hnot
    have hbefore : monthStart (d.month + 1) ≤ monthStart (12 * -262143) := monthStart_le (by omega)
    omega
  · by_contra hnot
    have hafter : monthStart (12 * 262143) ≤ monthStart d.month := monthStart_le (by omega)
    omega

/-- A month that another date is in can be reached. -/
theorem exists_addMonths?_of_month_le (hn : 0 ≤ n) (h : d.month + n ≤ e.month) :
    ∃ f, d.addMonths? n = some f := by
  have hback := day_le_dayInMonths (d := d) hn
  have hfirst := d.firstDay_le
  have hbounds := e.month_bounds
  have hend : monthStart (d.month + n + 1) ≤ monthStart (12 * 262143) := monthStart_le (by omega)
  have hlast : d.dayInMonths n ≤ Calendar.lastDay := by
    unfold dayInMonths monthLength Calendar.lastDay
    omega
  exact ⟨⟨d.dayInMonths n, by omega, hlast⟩, addMonths?_eq_some.mpr rfl⟩

/-! ## Years before months -/

/-- From a 29 February the years lead to a February that has none, and further months follow. -/
def LosesLeapDay (d : Date) (years months : Int) : Prop :=
  d.monthOfYear = 2 ∧ d.dayOfMonth = 29 ∧ monthLength (d.month + 12 * years) = 28 ∧ months ≠ 0

instance (d : Date) (years months : Int) : Decidable (d.LosesLeapDay years months) :=
  inferInstanceAs (Decidable (_ ∧ _))

/-- **Years and then months lead to where all months at once do**, or to the day before it where a
leap day is lost on the way. -/
theorem addMonths?_years_months {years months : Nat} (hmonths : months < 12)
    (h : d.addMonths? (12 * years + months) = some e) :
    ∃ a b, d.addMonths? (12 * years) = some a ∧ a.addMonths? months = some b
      ∧ (d.LosesLeapDay years months → b.day + 1 = e.day)
      ∧ (¬ d.LosesLeapDay years months → b.day = e.day) := by
  obtain ⟨hmonth, hoffset⟩ := month_of_addMonths? h
  obtain ⟨a, ha⟩ := exists_addMonths?_of_month_le (d := d) (n := 12 * years) (e := e)
    (by omega) (by omega)
  obtain ⟨hmonthA, hoffsetA⟩ := month_of_addMonths? ha
  obtain ⟨b, hb⟩ := exists_addMonths?_of_month_le (d := a) (n := months) (e := e)
    (by omega) (by omega)
  obtain ⟨hmonthB, hoffsetB⟩ := month_of_addMonths? hb
  refine ⟨a, b, ha, hb, ?_⟩
  have hsame : b.month = e.month := by omega
  have hbounds := d.offset_bounds
  rw [← hmonth] at hoffset
  rw [← hmonthB, hsame] at hoffsetB
  rw [b.day_eq, e.day_eq, hsame]
  unfold LosesLeapDay monthOfYear dayOfMonth
  by_cases hfebruary : d.month % 12 = 1
  · have hstart := monthLength_february hfebruary
    have hyears := monthLength_february (m := d.month + 12 * years) (by omega)
    by_cases hstay : months = 0
    · -- both stop at the end of the same February
      have hstop : e.month = d.month + 12 * years := by omega
      rw [hstop] at hoffset hoffsetB ⊢
      omega
    · -- the last month is long enough for a 29th
      have hend := thirty_le_monthLength (m := e.month) (by omega)
      omega
  · -- the years lead to a month that is as long
    have hlength := monthLength_add_years hfebruary years
    omega

end Date

end Calendar

/-! ## Whole months -/

namespace Duration

variable {start stop : Date}

theorem wholeMonths_eq {last : Date}
    (h : start.addMonths? (stop.month - start.month) = some last) :
    wholeMonths start stop = if stop < last then (stop.month - start.month - 1).toNat
      else (stop.month - start.month).toNat := by
  unfold wholeMonths
  extract_lets
  rw [h]

/-- **The whole months stay in range and do not pass the end.** -/
theorem exists_wholeMonths (h : start < stop) :
    ∃ reached, start.addMonths? (wholeMonths start stop) = some reached
      ∧ reached.day ≤ stop.day ∧ start.month + wholeMonths start stop ≤ stop.month := by
  rw [Date.lt_iff] at h
  have hmonth : start.month ≤ stop.month := Date.month_le h.le
  obtain ⟨last, hlast⟩ := Date.exists_addMonths?_of_month_le (d := start)
    (n := stop.month - start.month) (e := stop) (by omega) (by omega)
  rw [wholeMonths_eq hlast]
  split
  · next hpast =>
    -- in the month of the start itself nothing would be passed
    have hlater : start.month < stop.month := by
      by_contra hsame
      have hday := Date.addMonths?_eq_some.mp hlast
      rw [show stop.month - start.month = 0 by omega, Date.dayInMonths_zero] at hday
      rw [Date.lt_iff] at hpast
      omega
    obtain ⟨reached, hreached⟩ := Date.exists_addMonths?_of_month_le (d := start)
      (n := stop.month - start.month - 1) (e := stop) (by omega) (by omega)
    have hbefore := (Date.month_of_addMonths? hreached).1
    rw [Int.toNat_of_nonneg (by omega)]
    exact ⟨reached, hreached, (Date.day_lt_of_month_lt (by omega)).le, by omega⟩
  · next hnot =>
    rw [Date.lt_iff] at hnot
    rw [Int.toNat_of_nonneg (by omega)]
    exact ⟨last, hlast, by omega, by omega⟩

/-! ## The period between two dates -/

/-- Walking a period from a date loses a leap day between its years and its months. -/
def LosesLeapDay (period : Duration) (start : Date) : Prop :=
  start.LosesLeapDay (period.count .years).toNat (period.count .months).toNat

instance (period : Duration) (start : Date) : Decidable (period.LosesLeapDay start) :=
  inferInstanceAs (Decidable (start.LosesLeapDay _ _))

/-- A period leads from one date to another, or where a leap day is lost to the day before it. -/
structure LeadsUpTo (period : Duration) (start stop : Date) : Prop where
  kept : ¬ period.LosesLeapDay start → period.endDate start = .ok stop
  lost : period.LosesLeapDay start →
    ∃ last, period.endDate start = .ok last ∧ last.day + 1 = stop.day

theorem between_eq {reached : Date} (h : start < stop)
    (hreached : start.addMonths? (wholeMonths start stop) = some reached) :
    between start stop = ((zero.plus .years (UInt32.ofNat (wholeMonths start stop / 12))).plus
      .months (UInt32.ofNat (wholeMonths start stop % 12))).plus .days
        (UInt32.ofNat (stop.day - reached.day).toNat) := by
  unfold between
  rw [if_neg (Date.not_le.mpr h)]
  extract_lets months found
  have hfound : found = reached := by
    unfold found months
    rw [hreached, Option.getD_some]
  rw [hfound]
  rfl

/-- **What the period counts**: the whole months, twelve to a year, and the days that are left. -/
theorem counts_between {reached : Date} (h : start < stop)
    (hreached : start.addMonths? (wholeMonths start stop) = some reached)
    (hle : reached.day ≤ stop.day) :
    ((between start stop).count .years).toNat = wholeMonths start stop / 12
      ∧ ((between start stop).count .months).toNat = wholeMonths start stop % 12
      ∧ ((between start stop).count .weeks).toNat = 0
      ∧ (((between start stop).count .days).toNat : Int) = stop.day - reached.day := by
  -- the range is too short for a count that does not fit
  have hroom := Date.daysUntil_le_range reached stop
  have hmonth := (Date.month_of_addMonths? hreached).1
  have hbefore := start.month_bounds
  have hafter := reached.month_bounds
  unfold Date.daysUntil at hroom
  have hyears : wholeMonths start stop / 12 < UInt32.size := by unfold UInt32.size; omega
  have hmonths : wholeMonths start stop % 12 < UInt32.size := by unfold UInt32.size; omega
  have hdays : (stop.day - reached.day).toNat < UInt32.size := by unfold UInt32.size; omega
  have hzero (u : DurationUnit) : zero.count u = 0 := rfl
  rw [between_eq h hreached]
  simp only [count_plus, hzero, reduceCtorEq, if_false, if_true, UInt32.zero_add,
    UInt32.toNat_ofNat_of_lt' hyears, UInt32.toNat_ofNat_of_lt' hmonths,
    UInt32.toNat_ofNat_of_lt' hdays]
  exact ⟨trivial, trivial, rfl, Int.toNat_of_nonneg (by omega)⟩

/-- **Where the period between two dates leads**: to its end, unless a leap day is lost. -/
theorem between_leadsUpTo (h : start < stop) : (between start stop).LeadsUpTo start stop := by
  obtain ⟨reached, hreached, hle, _⟩ := exists_wholeMonths h
  obtain ⟨hyears, hmonths, hweeks, hdays⟩ := counts_between h hreached hle
  have hsplit : ((wholeMonths start stop : Nat) : Int)
      = 12 * (wholeMonths start stop / 12 : Nat) + (wholeMonths start stop % 12 : Nat) := by omega
  rw [hsplit] at hreached
  obtain ⟨a, b, ha, hb, hshort, hexact⟩ :=
    Date.addMonths?_years_months (Nat.mod_lt _ (by decide)) hreached
  rw [← hyears, ← hmonths] at hshort hexact
  -- the days that are left lead on from where the months do
  have hwalk (last : Date) (hlast : last.day = b.day + (stop.day - reached.day)) :
      (between start stop).endDate start = .ok last := by
    refine Answered.orFail_eq_ok.mpr ?_
    rw [advance?, hyears, hmonths, hweeks, ha, Option.bind_eq_bind, Option.bind_some, hb]
    simp only [Option.bind_eq_some_iff, Option.some.injEq, exists_eq_left',
      Date.addDays?_eq_some]
    exact ⟨b, by omega, by omega⟩
  refine ⟨fun hkeeps => hwalk stop ?_, fun hloses => ?_⟩
  · have hday : b.day = reached.day := hexact hkeeps
    omega
  · have hday : b.day + 1 = reached.day := hshort hloses
    have hback := b.firstDay_le
    have hstop := stop.le_lastDay
    exact ⟨⟨stop.day - 1, by omega, by omega⟩, hwalk _ (by simp only; omega), by simp only; omega⟩

/-! ## Durations in days -/

/-- A duration counts days alone, a week as seven of them. -/
structure IsDays (d : Duration) (n : Nat) : Prop where
  years : d.count .years = 0
  months : d.count .months = 0
  days : 7 * (d.count .weeks).toNat + (d.count .days).toNat = n

theorem isDays_of (n : UInt32) : (of .days n).IsDays n.toNat where
  years := by rw [of, count_plus, if_neg (by decide)]; rfl
  months := by rw [of, count_plus, if_neg (by decide)]; rfl
  days := by
    have hzero (u : DurationUnit) : zero.count u = 0 := rfl
    simp [of, count_plus, hzero]

/-- It is as long from any anchor. -/
theorem IsDays.day_of_endDate {d : Duration} {n : Nat} {anchor e : Date} (h : d.IsDays n)
    (hend : d.endDate anchor = .ok e) : e.day = anchor.day + n := by
  have hdays := h.days
  have hend := Answered.orFail_eq_ok.mp hend
  simp only [advance?, h.years, h.months, Option.bind_eq_bind, Option.bind_eq_some_iff,
    Date.addMonths?_eq_some, Date.addDays?_eq_some] at hend
  obtain ⟨years, hyears, months, hmonths, weeks, hweeks, hend⟩ := hend
  rw [show (12 * ((0 : UInt32).toNat : Int)) = 0 from rfl, Date.dayInMonths_zero] at hyears
  rw [show ((0 : UInt32).toNat : Int) = 0 from rfl, Date.dayInMonths_zero] at hmonths
  omega

end Duration

end Custody
