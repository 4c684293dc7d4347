import Custody.Config.Basic
import Custody.Count

/-!
# Release points

Where in a sentence release falls: a fraction of its days by track, in exact decimals, with one
rounding up to whole days at the end.

* **`ceilDays`** rounds a number of days up.
* **`daysAtFraction`** is a fraction of a whole number of days.
-/

namespace Custody

/-- The whole days that a number of days takes up. They have to fit 64 bits. -/
def ceilDays (days : Decimal) : Answered Int :=
  let n := days.ceil
  if fits64 n then .ok n else .error (.breach (.countOverflow days))

/-- The whole days that a fraction of a number of days takes up. -/
def daysAtFraction (days : Int) (fraction : Decimal) : Answered Int :=
  ceilDays (Decimal.ofInt days * fraction)

namespace ReleasePoints

/-- The fraction of a sentence on a track that is served before release. -/
def multiplierFor (points : ReleasePoints) (track : Track) : Answered Decimal :=
  orFail (points.multipliers.get? track) (.multiplierMissing track)

/-- The fraction of a sentence on a track that is served before parole, if it is considered. -/
def paroleMultiplier? (points : ReleasePoints) (track : Track) : Option Decimal :=
  points.paroleMultipliers.get? track

end ReleasePoints

end Custody
