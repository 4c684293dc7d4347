/-!
# Months on the day line

Days are counted on one line of integers and months on another. Day `0` is 1 March of year 0 and
month `0` is January of year 0, both of the proleptic Gregorian calendar, so month `m` belongs to
year `m / 12`. A month is the interval of days from `monthStart m` up to `monthStart (m + 1)`.

* **`monthStart_le_monthOf`**, **`lt_monthStart_monthOf`**: `monthOf n` is the month whose interval
  holds day `n`.
* **`monthLength_bounds`**: a month has 28 to 31 days.
-/

namespace Custody.Calendar

/-- The day on which month `m` begins. Counting years from March puts the leap day last, so whole
years contribute `365` days and their leap days, and the months since March the usual run of
31 and 30 day months, which is `(153 * p + 2) / 5`. -/
def monthStart (m : Int) : Int :=
  let year := (m - 2) / 12
  let sinceMarch := (m - 2) % 12
  365 * year + year / 4 - year / 100 + year / 400 + (153 * sinceMarch + 2) / 5

/-- The number of days in month `m`. -/
def monthLength (m : Int) : Int :=
  monthStart (m + 1) - monthStart m

/-- The month that holds day `n`. The mean month of the 400 year cycle, `146097 / 4800` days, gives
a guess that is at most one month off. -/
def monthOf (n : Int) : Int :=
  let guess := n * 4800 / 146097 + 2
  if n < monthStart guess then guess - 1
  else if monthStart (guess + 1) ≤ n then guess + 1
  else guess

/-! ### Lengths -/

/-- One more year adds at most one leap day. -/
theorem leapDays_succ (y : Int) :
    y / 4 - y / 100 + y / 400 ≤ (y + 1) / 4 - (y + 1) / 100 + (y + 1) / 400
      ∧ (y + 1) / 4 - (y + 1) / 100 + (y + 1) / 400 ≤ y / 4 - y / 100 + y / 400 + 1 := by
  have hundreds : y / 100 = y / 4 / 25 ∧ (y + 1) / 100 = (y + 1) / 4 / 25 := by omega
  have cycles : y / 400 = y / 100 / 4 ∧ (y + 1) / 400 = (y + 1) / 100 / 4 := by omega
  omega

theorem monthLength_bounds (m : Int) : 28 ≤ monthLength m ∧ monthLength m ≤ 31 := by
  simp only [monthLength, monthStart]
  by_cases last : (m - 2) % 12 = 11
  · have year : (m + 1 - 2) / 12 = (m - 2) / 12 + 1 := by omega
    have march : (m + 1 - 2) % 12 = 0 := by omega
    rw [year, march, last]
    have := leapDays_succ ((m - 2) / 12)
    omega
  · have year : (m + 1 - 2) / 12 = (m - 2) / 12 := by omega
    have next : (m + 1 - 2) % 12 = (m - 2) % 12 + 1 := by omega
    rw [year, next]
    omega

theorem monthStart_lt_succ (m : Int) : monthStart m < monthStart (m + 1) := by
  have := monthLength_bounds m
  simp only [monthLength] at this
  omega

/-! ### The month of a day -/

/-- A month starts within a few days of where the mean month puts it. -/
theorem monthStart_near_mean (m : Int) :
    146097 * (m - 2) - 4800 * 4 ≤ 4800 * monthStart m
      ∧ 4800 * monthStart m ≤ 146097 * (m - 2) + 4800 * 4 := by
  simp only [monthStart]
  omega

theorem monthStart_le_monthOf (n : Int) : monthStart (monthOf n) ≤ n := by
  have near := monthStart_near_mean (n * 4800 / 146097 + 2 - 1)
  simp only [monthOf]
  split
  · omega
  · split <;> omega

theorem lt_monthStart_monthOf (n : Int) : n < monthStart (monthOf n + 1) := by
  have near := monthStart_near_mean (n * 4800 / 146097 + 2 + 1 + 1)
  simp only [monthOf]
  split
  · rename_i h
    rwa [Int.sub_add_cancel]
  · split <;> omega

end Custody.Calendar
