import Custody.Calendar.Month

/-!
# Dates

A `Date` is a day of the supported range, from 1 January of year -262143 to 31 December of year
262142. The range is whole years, so a date advanced by months or days either lands on a date or
has left the range, which is `none`.

* **`Date.addMonths?`** keeps the day of the month where the target month is long enough and
  otherwise stops at its last day.
* **`Date.ofCivil?_civil`**: a date is determined by its year, month and day.
-/

namespace Custody.Calendar

/-- The first day of the supported range, 1 January of year -262143. -/
def firstDay : Int := monthStart (12 * -262143)

/-- The last day of the supported range, 31 December of year 262142. -/
def lastDay : Int := monthStart (12 * 262143) - 1

/-- A day of the supported range, by its place on the day line. -/
@[ext]
structure Date where
  day : Int
  firstDay_le : firstDay ≤ day
  le_lastDay : day ≤ lastDay
deriving DecidableEq

namespace Date

instance : LE Date := ⟨fun a b => a.day ≤ b.day⟩
instance : LT Date := ⟨fun a b => a.day < b.day⟩
instance (a b : Date) : Decidable (a ≤ b) := inferInstanceAs (Decidable (a.day ≤ b.day))
instance (a b : Date) : Decidable (a < b) := inferInstanceAs (Decidable (a.day < b.day))
instance : Max Date := maxOfLe
instance : Min Date := minOfLe

theorem le_iff {a b : Date} : a ≤ b ↔ a.day ≤ b.day := Iff.rfl

theorem lt_iff {a b : Date} : a < b ↔ a.day < b.day := Iff.rfl

/-- The date on day `n`, if the range reaches that far. -/
def ofDay? (n : Int) : Option Date :=
  if h : firstDay ≤ n ∧ n ≤ lastDay then some ⟨n, h.1, h.2⟩ else none

theorem ofDay?_eq_some_iff {n : Int} {d : Date} : ofDay? n = some d ↔ d.day = n := by
  simp only [ofDay?]
  constructor
  · intro h
    split at h
    · cases h; rfl
    · cases h
  · intro h
    subst h
    rw [dif_pos ⟨d.firstDay_le, d.le_lastDay⟩]

/-! ### Year, month and day -/

/-- The month a date falls in, on the month line. -/
def month (d : Date) : Int := monthOf d.day

/-- How many days of its month are before the date. -/
def offset (d : Date) : Int := d.day - monthStart d.month

/-- The year of a date; year 0 exists and is a leap year. -/
def year (d : Date) : Int := d.month / 12

/-- The month of the year, 1 to 12. -/
def monthOfYear (d : Date) : Int := d.month % 12 + 1

/-- The day of the month, from 1. -/
def dayOfMonth (d : Date) : Int := d.offset + 1

/-- The date of a year, month and day of the month, where there is such a day in the range. -/
def ofCivil? (year monthOfYear dayOfMonth : Int) : Option Date :=
  let m := 12 * year + (monthOfYear - 1)
  if 1 ≤ monthOfYear ∧ monthOfYear ≤ 12 ∧ 1 ≤ dayOfMonth ∧ dayOfMonth ≤ monthLength m then
    ofDay? (monthStart m + (dayOfMonth - 1))
  else none

theorem offset_bounds (d : Date) : 0 ≤ d.offset ∧ d.offset < monthLength d.month := by
  have lower := monthStart_le_monthOf d.day
  have upper := lt_monthStart_monthOf d.day
  simp only [offset, month, monthLength]
  omega

theorem ofCivil?_civil (d : Date) :
    ofCivil? d.year d.monthOfYear d.dayOfMonth = some d := by
  have month_eq : 12 * d.year + (d.monthOfYear - 1) = d.month := by
    simp only [year, monthOfYear]; omega
  have bounds := d.offset_bounds
  have day_eq : monthStart d.month + (d.dayOfMonth - 1) = d.day := by
    simp only [dayOfMonth, offset]; omega
  simp only [ofCivil?, month_eq, day_eq]
  rw [if_pos, ofDay?_eq_some_iff]
  simp only [monthOfYear, dayOfMonth]
  omega

/-! ### Moving along the calendar -/

/-- The date `n` days later, earlier for negative `n`. -/
def addDays? (d : Date) (n : Int) : Option Date :=
  ofDay? (d.day + n)

/-- The date `n` months later. A day of the month that the target month lacks becomes its last. -/
def addMonths? (d : Date) (n : Int) : Option Date :=
  let target := d.month + n
  ofDay? (monthStart target + min d.offset (monthLength target - 1))

/-- The number of days from `start` to `stop`. -/
def daysUntil (start stop : Date) : Int :=
  stop.day - start.day

/-! ### Days of the week -/

/-- Saturday or Sunday. Day 0 is a Wednesday, and the 400 year cycle is a whole number of weeks. -/
def isWeekend (d : Date) : Bool :=
  d.day % 7 = 3 ∨ d.day % 7 = 4

end Date

end Custody.Calendar
