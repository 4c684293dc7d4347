import Custody.Failure

/-!
# Reckoning

Steps along the calendar that calculations are made of. Each of them names what it was doing when it
left the supported range.

* **`Duration.endDate`**, **`Duration.lengthInDays`**: a duration from an anchor.
* **`Date.plusDays`**, **`Date.lastDay`**: days from a date, and the last day of a period of days.
-/

namespace Custody

open Custody.Calendar

namespace Calendar.Date

/-- The date `days` later. -/
def plusDays (date : Date) (days : Int) : Answered Date :=
  orFail (date.addDays? days) (.breach (.daysOverflow days date))

/-- The last day of a period of `days` that has `start` as its first. A period of no days or fewer
ends on `start`. -/
def lastDay (start : Date) (days : Int) : Answered Date :=
  start.plusDays (max (wrap64 (days - 1)) 0)

end Calendar.Date

namespace Duration

/-- The date that a duration leads to. -/
def endDate (d : Duration) (anchor : Date) : Answered Date :=
  orFail (d.advance? anchor) (.breach (.durationOverflow d anchor))

/-- The days that a duration spans. -/
def lengthInDays (d : Duration) (anchor : Date) : Answered Int := do
  return anchor.daysUntil (← d.endDate anchor)

end Duration

end Custody
