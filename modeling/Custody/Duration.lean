import Custody.Calendar.DateText
import Custody.Table

/-!
# Durations

A `Duration` counts calendar units. It has no length of its own: a month is 28 to 31 days, so every
measure of it starts from an anchor date and walks the calendar, years first, then months, weeks
and days.

* **`Duration.advance?`** is the walk, **`Duration.between`** its inverse in whole months and days.
-/

namespace Custody

open Custody.Calendar

/-- The units that a duration counts, in the order in which they are walked. -/
inductive DurationUnit
  | years
  | months
  | weeks
  | days
deriving DecidableEq

instance : Enumeration DurationUnit where
  all := [.years, .months, .weeks, .days]
  name
    | .years => "years"
    | .months => "months"
    | .weeks => "weeks"
    | .days => "days"
  mem_all k := by cases k <;> decide
  nodup_all := by decide
  name_injective {a b} := by cases a <;> cases b <;> simp

/-- A count for each calendar unit. A count of zero is not the same as no count, but measures the
same. -/
@[ext]
structure Duration where
  counts : Table DurationUnit UInt32
deriving DecidableEq

namespace Duration

/-- The duration without counts. -/
def zero : Duration := ⟨Table.empty⟩

instance : Inhabited Duration := ⟨zero⟩

/-- The count of a unit, zero when there is none. -/
def count (d : Duration) (u : DurationUnit) : UInt32 :=
  (d.counts.get? u).getD 0

/-- Adds to the count of a unit. Adding nothing leaves the unit without a count if it had none. -/
def plus (d : Duration) (u : DurationUnit) (n : UInt32) : Duration :=
  if n = 0 then d else ⟨d.counts.insert u (d.count u + n)⟩

/-- `n` of one unit. -/
def of (u : DurationUnit) (n : UInt32) : Duration :=
  zero.plus u n

/-- Whether the duration measures nothing from any anchor. -/
def isZero (d : Duration) : Bool :=
  d.counts.values.all (· == 0)

/-- The counts above zero in words. -/
def text (d : Duration) : String :=
  if d.isZero then "0 days"
  else
    let counted := d.counts.toList.filter fun (_, n) => 0 < n
    " ".intercalate (counted.map fun (u, n) => toString n.toNat ++ " " ++ Enumeration.name u)

instance : ToString Duration := ⟨text⟩

/-! ### Measuring from an anchor -/

/-- The date reached from `anchor`, if the walk stays in the supported range. -/
def advance? (d : Duration) (anchor : Date) : Option Date := do
  let date ← anchor.addMonths? (12 * (d.count .years).toNat)
  let date ← date.addMonths? (d.count .months).toNat
  let date ← date.addDays? (7 * (d.count .weeks).toNat)
  date.addDays? (d.count .days).toNat

/-- The most whole months that `start` can be advanced by without passing `stop`: the calendar
months between them, or one less when the last of these would go past `stop`. -/
def wholeMonths (start stop : Date) : Nat :=
  let calendar := stop.month - start.month
  match start.addMonths? calendar with
  | some reached => if stop < reached then (calendar - 1).toNat else calendar.toNat
  | none => (calendar - 1).toNat

/-- The years, months and days from `start` up to `stop`; nothing when `stop` is not later. -/
def between (start stop : Date) : Duration :=
  if stop ≤ start then zero
  else
    let months := wholeMonths start stop
    let reached := (start.addMonths? months).getD start
    ((zero.plus .years (UInt32.ofNat (months / 12))).plus .months (UInt32.ofNat (months % 12))).plus
      .days (UInt32.ofNat (reached.daysUntil stop).toNat)

end Duration

end Custody
