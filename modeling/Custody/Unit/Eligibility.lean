import Custody.Unit.Curfew
import Custody.Unit.Removal
import Custody.Unit.Supervision

/-!
# Dates that a unit may be eligible for

Besides its expiry and release a unit may have dates from schemes of their own. Each scheme decides
whether it applies to a unit and what its date is, from the unit and its counts of days.

* **`Eligibility.apply`** records the date of a scheme that applies, and otherwise changes nothing.
-/

namespace Custody

open Custody.Calendar

/-- A scheme that gives a date. -/
inductive Eligibility where
  | curfew (variant : Curfew)
  | removal
  | supervision
deriving DecidableEq

instance : Enumeration Eligibility where
  all := [.curfew .hdced, .curfew .hdced4plus, .removal, .supervision]
  name
    | .curfew .hdced => "hdced"
    | .curfew .hdced4plus => "hdced4plus"
    | .removal => "ersed"
    | .supervision => "tused"
  mem_all k := by rcases k with (_ | _) | _ | _ <;> decide
  nodup_all := by decide
  name_injective {a b} := by
    rcases a with (_ | _) | _ | _ <;> rcases b with (_ | _) | _ | _ <;> simp

namespace Eligibility

/-- The date that a scheme gives. -/
def kind : Eligibility → DateKind
  | curfew variant => variant.kind
  | removal => .ersed
  | supervision => .tused

/-- Whether a scheme applies to a unit. -/
def applies (config : Config) (offender : Offender) (unit : Sentence) (c : UnitCalculation) :
    Eligibility → Answered Bool
  | curfew variant => (variant.terms config).applies offender unit c
  | removal => .ok (RemovalTerms.applies unit c)
  | supervision => config.tused.applies config.commencements.ora offender unit c

/-- The date of a scheme, whether it applies or not, when committals of so many days are served
first. -/
def date (config : Config) (c : UnitCalculation) (botusDays : Int) :
    Eligibility → Answered Breakdown
  | curfew variant => (variant.terms config).date variant c botusDays
  | removal => config.ersed.date c
  | supervision => config.tused.date config.bankHolidays.dates c

/-- The date of a scheme, if it applies. -/
def date? (config : Config) (offender : Offender) (unit : Sentence) (c : UnitCalculation)
    (e : Eligibility) : Answered (Option Breakdown) := do
  if ← e.applies config offender unit c then return some (← e.date config c c.botusDaysFirst)
  return none

/-- Records the date of a scheme, if it applies, and says whether it does. -/
def apply (config : Config) (offender : Offender) (unit : Sentence) (c : UnitCalculation)
    (e : Eligibility) : Answered (UnitCalculation × Bool) := do
  match ← e.date? config offender unit c with
  | some b => return (c.record e.kind b, true)
  | none => return (c, false)

end Eligibility

end Custody
