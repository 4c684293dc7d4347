import Custody.Calendar.WorkingDay
import Custody.Proofs.Calendar.Advance
import Custody.Proofs.Failing

/-!
# Dates within reach

The supported range goes on for more than ninety million days on both sides of day 0, and the years
1 to 9999 take up less than four million of them. A month has at most 31 days and a year 366, so how
far a duration can lead is bounded by its counts (`Duration.mostDays`), and as long as that bound is
within reach the duration leads somewhere.

* **`Date.plusDays_failsBy`**, **`Duration.endDate_failsBy`**: no failure within reach.
* **`Duration.day_le_add_mostDays`**: how far a duration leads.
* **`latestWorkingDay?_eq_none_iff`**, **`previousWorkingDay_mono`**: going back finds a working day
  if there is one, and keeps the order of dates.
-/

namespace Custody

open Custody.Calendar Custody.Answered

variable {fails : Failure → Prop}

namespace Calendar

/-! ## The range -/

theorem firstDay_le_reach : firstDay ≤ -90000000 := by decide

theorem reach_le_lastDay : 90000000 ≤ lastDay := by decide

namespace Date

/-- The first date of the range. -/
def earliest : Date := ⟨firstDay, Int.le_refl _, by decide⟩

/-- The last date of the range. -/
def latest : Date := ⟨Calendar.lastDay, by decide, Int.le_refl _⟩

theorem eq_earliest_of_le {d : Date} (h : d ≤ earliest) : d = earliest :=
  Date.ext (Int.le_antisymm h d.firstDay_le)

theorem ofDay?_ne_none {n : Int} (hlow : -90000000 ≤ n) (hhigh : n ≤ 90000000) :
    ofDay? n ≠ none := by
  have hfirst := firstDay_le_reach
  have hlast := reach_le_lastDay
  rw [ofDay?, dif_pos ⟨by omega, by omega⟩]
  exact Option.some_ne_none _

theorem plusDays_failsBy {d : Date} {n : Int} (hlow : -90000000 ≤ d.day + n)
    (hhigh : d.day + n ≤ 90000000) : FailsBy fails (d.plusDays n) := by
  rw [plusDays, failsBy_orFail]
  intro hnone
  exact absurd hnone (ofDay?_ne_none hlow hhigh)

theorem lastDay_failsBy {d : Date} {n : Int} (hlow : -90000000 ≤ d.day) (hcount : -90000000 ≤ n)
    (hhigh : d.day + max n 0 ≤ 90000000) : FailsBy fails (d.lastDay n) := by
  rw [Date.lastDay, wrap64_of_small (by omega) (by omega)]
  exact plusDays_failsBy (by omega) (by omega)

/-- The years 1 to 9999. -/
def InYears (d : Date) : Prop := 1 ≤ d.year ∧ d.year ≤ 9999

instance (d : Date) : Decidable d.InYears := inferInstanceAs (Decidable (_ ∧ _))

theorem InYears.day_bounds {d : Date} (h : d.InYears) : 0 ≤ d.day ∧ d.day ≤ 4000000 := by
  obtain ⟨hlow, hhigh⟩ := h
  simp only [year] at hlow hhigh
  have hfirst : monthStart 12 ≤ monthStart d.month := monthStart_le (by omega)
  have hlast : monthStart (d.month + 1) ≤ monthStart (12 * 10000) := monthStart_le (by omega)
  have hafter : monthStart d.month ≤ d.day := monthStart_le_monthOf d.day
  have hbefore : d.day < monthStart (d.month + 1) := lt_monthStart_monthOf d.day
  have hone : monthStart 12 = 306 := by decide
  have hten : monthStart (12 * 10000) = 3652365 := by decide
  omega

end Date

/-! ## Months and years -/

theorem monthStart_add_le {n : Nat} (m : Int) : monthStart (m + n) ≤ monthStart m + 31 * n := by
  induction n with
  | zero => simp
  | succ n ih =>
    have hlength := monthLength_bounds (m + n)
    simp only [monthLength] at hlength
    push_cast
    rw [← Int.add_assoc]
    omega

/-- A year has at most 366 days, wherever in it one begins to count. -/
theorem monthStart_add_year_le (m : Int) : monthStart (m + 12) ≤ monthStart m + 366 := by
  have hyear : (m + 12 - 2) / 12 = (m - 2) / 12 + 1 := by omega
  have hmonth : (m + 12 - 2) % 12 = (m - 2) % 12 := by omega
  have hleap := leapDays_succ ((m - 2) / 12)
  simp only [monthStart, hyear, hmonth]
  omega

theorem monthStart_add_years_le {n : Nat} (m : Int) :
    monthStart (m + 12 * n) ≤ monthStart m + 366 * n := by
  induction n with
  | zero => simp
  | succ n ih =>
    have hyear := monthStart_add_year_le (m + 12 * n)
    push_cast
    rw [Int.mul_add, Int.mul_one, ← Int.add_assoc]
    omega

namespace Date

theorem dayInMonths_le (d : Date) (n : Nat) : d.dayInMonths n ≤ d.day + 31 * n := by
  have hstart := monthStart_add_le (n := n) d.month
  have hday := d.day_eq
  unfold dayInMonths
  omega

theorem dayInMonths_years_le (d : Date) (n : Nat) :
    d.dayInMonths (12 * n) ≤ d.day + 366 * n := by
  have hstart := monthStart_add_years_le (n := n) d.month
  have hday := d.day_eq
  unfold dayInMonths
  omega

theorem exists_addMonths? {d : Date} {n : Int} (hlow : -90000000 ≤ d.day) (hn : 0 ≤ n)
    (hhigh : d.dayInMonths n ≤ 90000000) : ∃ e, d.addMonths? n = some e :=
  Option.ne_none_iff_exists'.mp (ofDay?_ne_none (hlow.trans (day_le_dayInMonths hn)) hhigh)

theorem exists_addDays? {d : Date} {n : Int} (hlow : -90000000 ≤ d.day + n)
    (hhigh : d.day + n ≤ 90000000) : ∃ e, d.addDays? n = some e :=
  Option.ne_none_iff_exists'.mp (ofDay?_ne_none hlow hhigh)

end Date

end Calendar

/-! ## Durations -/

namespace Duration

variable {d : Duration} {anchor e : Date}

theorem count_plus (d : Duration) (u v : DurationUnit) (n : UInt32) :
    (d.plus u n).count v = if v = u then d.count u + n else d.count v := by
  unfold plus
  split
  · next hzero =>
    rw [hzero, UInt32.add_zero]
    split
    · next hsame => rw [hsame]
    · rfl
  · simp only [count, Table.get?_insert]
    split <;> rfl

theorem count_of (u v : DurationUnit) (n : UInt32) :
    (of u n).count v = if v = u then n else 0 := by
  have hzero (w : DurationUnit) : zero.count w = 0 := rfl
  rw [of, count_plus, hzero, hzero, UInt32.zero_add]

/-- The most days that a duration can span. -/
def mostDays (d : Duration) : Int :=
  366 * (d.count .years).toNat + 31 * (d.count .months).toNat + 7 * (d.count .weeks).toNat
    + (d.count .days).toNat

theorem mostDays_nonneg (d : Duration) : 0 ≤ d.mostDays := by
  unfold mostDays
  omega

theorem day_le_add_mostDays (h : d.endDate anchor = .ok e) : e.day ≤ anchor.day + d.mostDays := by
  replace h := Answered.orFail_eq_ok.mp h
  simp only [advance?, Option.bind_eq_bind, Option.bind_eq_some_iff, Date.addMonths?_eq_some,
    Date.addDays?_eq_some] at h
  obtain ⟨years, hyears, months, hmonths, weeks, hweeks, hdays⟩ := h
  have h1 := anchor.dayInMonths_years_le (d.count .years).toNat
  have h2 := years.dayInMonths_le (d.count .months).toNat
  unfold mostDays
  omega

/-- **A duration leads somewhere** if the most days that it can span are within reach. -/
theorem exists_advance? (hlow : -90000000 ≤ anchor.day)
    (hhigh : anchor.day + d.mostDays ≤ 90000000) : ∃ e, d.advance? anchor = some e := by
  unfold mostDays at hhigh
  have hyearsLe := anchor.dayInMonths_years_le (d.count .years).toNat
  -- years and months lead forward and have an upper bound, weeks and days are exact
  obtain ⟨years, hyears⟩ := Date.exists_addMonths? (n := 12 * (d.count .years).toNat) hlow
    (by omega) (by omega)
  have hback := Date.day_le_of_addMonths? (by omega) hyears
  have hmonthsLe := years.dayInMonths_le (d.count .months).toNat
  rw [← Date.addMonths?_eq_some.mp hyears] at hyearsLe
  obtain ⟨months, hmonths⟩ := Date.exists_addMonths? (n := (d.count .months).toNat)
    (hlow.trans hback) (by omega) (by omega)
  have hback' := Date.day_le_of_addMonths? (by omega) hmonths
  rw [← Date.addMonths?_eq_some.mp hmonths] at hmonthsLe
  obtain ⟨weeks, hweeks⟩ := Date.exists_addDays? (d := months)
    (n := 7 * (d.count .weeks).toNat) (by omega) (by omega)
  have hweek := Date.addDays?_eq_some.mp hweeks
  obtain ⟨days, hdays⟩ := Date.exists_addDays? (d := weeks) (n := (d.count .days).toNat)
    (by omega) (by omega)
  refine ⟨days, ?_⟩
  simp only [advance?, hyears, hmonths, hweeks, hdays, Option.bind_eq_bind, Option.bind_some]

theorem endDate_failsBy (hlow : -90000000 ≤ anchor.day)
    (hhigh : anchor.day + d.mostDays ≤ 90000000) : FailsBy fails (d.endDate anchor) := by
  obtain ⟨e, he⟩ := exists_advance? hlow hhigh
  simp [endDate, he]

theorem lengthInDays_failsBy (hlow : -90000000 ≤ anchor.day)
    (hhigh : anchor.day + d.mostDays ≤ 90000000) : FailsBy fails (d.lengthInDays anchor) := by
  simp [lengthInDays, endDate_failsBy hlow hhigh]

end Duration

/-! ## Working days -/

namespace Calendar

theorem filter_ofDay?_eq_none_iff {holidays : List Date} {n : Int} :
    (Date.ofDay? n).filter (isWorkingDay holidays) = none
      ↔ ∀ d : Date, d.day = n → isWorkingDay holidays d = false := by
  simp only [Option.filter_eq_none_iff, Date.ofDay?_eq_some_iff, Bool.not_eq_true]

/-- Going back from a day finds nothing iff there is no working day on the way. -/
theorem latestWorkingDayTo?_eq_none_iff {holidays : List Date} {n : Nat} :
    latestWorkingDayTo? holidays n = none
      ↔ ∀ d : Date, d.day ≤ firstDay + n → isWorkingDay holidays d = false := by
  induction n with
  | zero =>
    rw [latestWorkingDayTo?, filter_ofDay?_eq_none_iff]
    refine forall_congr' fun d => ?_
    have hfirst := d.firstDay_le
    have hday : d.day = firstDay ↔ d.day ≤ firstDay + (0 : Nat) := by omega
    rw [hday]
  | succ n ih =>
    rw [latestWorkingDayTo?]
    split
    · next d hd =>
      -- the day itself is a working day
      rw [Option.filter_eq_some_iff, Date.ofDay?_eq_some_iff] at hd
      constructor
      · intro h
        cases h
      · intro h
        rw [h d (by omega)] at hd
        cases hd.2
    · next hnone =>
      rw [filter_ofDay?_eq_none_iff] at hnone
      rw [ih]
      constructor
      · intro h d hd
        by_cases hsame : d.day = firstDay + ((n + 1 : Nat) : Int)
        · exact hnone d hsame
        · exact h d (by omega)
      · intro h d hd
        exact h d (by omega)

/-- **Going back finds a working day if there is one.** -/
theorem latestWorkingDay?_eq_none_iff {holidays : List Date} {d : Date} :
    latestWorkingDay? holidays d = none
      ↔ ∀ e : Date, e ≤ d → isWorkingDay holidays e = false := by
  have hfirst := d.firstDay_le
  rw [latestWorkingDay?, latestWorkingDayTo?_eq_none_iff]
  refine forall_congr' fun e => ?_
  rw [Date.le_iff]
  have : firstDay + ((d.day - firstDay).toNat : Int) = d.day := by omega
  rw [this]

theorem day_le_of_latestWorkingDayTo? {holidays : List Date} {n : Nat} {d : Date}
    (h : latestWorkingDayTo? holidays n = some d) : d.day ≤ firstDay + n := by
  induction n with
  | zero =>
    rw [latestWorkingDayTo?, Option.filter_eq_some_iff, Date.ofDay?_eq_some_iff] at h
    omega
  | succ n ih =>
    rw [latestWorkingDayTo?] at h
    split at h
    · next found hfound =>
      rw [Option.filter_eq_some_iff, Date.ofDay?_eq_some_iff] at hfound
      cases h
      omega
    · have := ih h
      omega

theorem latestWorkingDayTo?_mono {holidays : List Date} {n n' : Nat} {d d' : Date} (hle : n ≤ n')
    (h : latestWorkingDayTo? holidays n = some d)
    (h' : latestWorkingDayTo? holidays n' = some d') : d.day ≤ d'.day := by
  have hday := day_le_of_latestWorkingDayTo? h
  induction hle with
  | refl =>
    rw [h] at h'
    cases h'
    exact le_rfl
  | @step m hle ih =>
    rw [latestWorkingDayTo?] at h'
    split at h'
    · next found hfound =>
      -- a later working day is found at once
      rw [Option.filter_eq_some_iff, Date.ofDay?_eq_some_iff] at hfound
      cases h'
      have : n ≤ m := hle
      omega
    · exact ih h'

/-- **A later date is not moved to an earlier working day.** -/
theorem previousWorkingDay_mono {holidays : List Date} {d d' : Date} {moved moved' : MovedDate}
    (hle : d.day ≤ d'.day) (h : previousWorkingDay holidays d = .ok moved)
    (h' : previousWorkingDay holidays d' = .ok moved') : moved.date.day ≤ moved'.date.day := by
  simp only [previousWorkingDay, Answered.bind_eq_ok, Answered.orFail_eq_ok,
    Answered.pure_eq_ok] at h h'
  obtain ⟨found, hfound, rfl⟩ := h
  obtain ⟨found', hfound', rfl⟩ := h'
  exact latestWorkingDayTo?_mono (by omega) hfound hfound'

end Calendar

end Custody
