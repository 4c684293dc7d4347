import Custody.Reckoning

/-!
# Working days

A day is a working day unless it falls on a weekend or is a bank holiday; a bank holiday on a
weekend counts as weekend. A date that is not a working day moves back to the nearest working day
before it.

* **`latestWorkingDay?`** walks back from a date to the first day of the supported range.
-/

namespace Custody.Calendar

/-- What kind of day a date is. -/
inductive DayType where
  | workingDay
  | weekend
  | bankHoliday
deriving DecidableEq

instance : Enumeration DayType where
  all := [.workingDay, .weekend, .bankHoliday]
  name
    | .workingDay => "working_day"
    | .weekend => "weekend"
    | .bankHoliday => "bank_holiday"
  mem_all k := by cases k <;> decide
  nodup_all := by decide
  name_injective {a b} := by cases a <;> cases b <;> simp

namespace DayType

/-- The name in words run together. -/
def label : DayType → String
  | .workingDay => "WorkingDay"
  | .weekend => "Weekend"
  | .bankHoliday => "BankHoliday"

end DayType

/-- What kind of day a date is, given the bank holidays. -/
def dayType (holidays : List Date) (d : Date) : DayType :=
  if d.isWeekend then .weekend
  else if holidays.contains d then .bankHoliday
  else .workingDay

/-- Whether a date is a working day. -/
def isWorkingDay (holidays : List Date) (d : Date) : Bool :=
  dayType holidays d = .workingDay

/-- The latest working day among the day `n` after the first of the range and the days before. -/
def latestWorkingDayTo? (holidays : List Date) : Nat → Option Date
  | 0 => (Date.ofDay? firstDay).filter (isWorkingDay holidays)
  | n + 1 =>
    match (Date.ofDay? (firstDay + ((n + 1 : Nat) : Int))).filter (isWorkingDay holidays) with
    | some d => some d
    | none => latestWorkingDayTo? holidays n

/-- The latest working day that is not after a date. -/
def latestWorkingDay? (holidays : List Date) (d : Date) : Option Date :=
  latestWorkingDayTo? holidays (d.day - firstDay).toNat

/-- A date moved to a working day. -/
structure MovedDate where
  original : Date
  date : Date
  /-- Why the date was moved, if it was. -/
  reason : Option DayType
deriving DecidableEq

namespace MovedDate

/-- Whether the date was moved. -/
def wasMoved (m : MovedDate) : Bool :=
  m.reason.isSome

end MovedDate

/-- The date itself if it is a working day, or else the working day before it. -/
def previousWorkingDay (holidays : List Date) (d : Date) : Answered MovedDate := do
  let date ← orFail (latestWorkingDay? holidays d) (.breach (.noWorkingDay d))
  let type := dayType holidays d
  return { original := d, date, reason := if type = .workingDay then none else some type }

end Custody.Calendar
