import Custody.Calendar.Date
import Custody.Text.Blank
import Custody.Text.Digits

/-!
# Dates as text

A date is written year, month, day with hyphens between, the month and day in two digits. Years 0
to 9999 have four digits and no sign; all others have a sign and at least four.

Reading is more liberal than writing: any number of digits is read where the year has a sign, one
digit will do for a month or a day, and blanks may stand around the three numbers. A day that the
calendar does not have, and anything left over after the day, is refused.
-/

namespace Custody.Calendar.Date

open Custody.Text

/-- The written form of a year. -/
def yearText (year : Int) : List Char :=
  if 0 ≤ year ∧ year ≤ 9999 then padded 4 year.toNat
  else (if year < 0 then '-' else '+') :: padded 4 year.natAbs

/-- The written form of a date. -/
def text (d : Date) : String :=
  String.ofList (yearText d.year ++ '-' :: padded 2 d.monthOfYear.toNat
    ++ '-' :: padded 2 d.dayOfMonth.toNat)

instance : ToString Date := ⟨text⟩

/-- Reads a year. Without a sign it ends after four digits. -/
def takeYear? : List Char → Option (Int × List Char)
  | '-' :: cs => (takeNumber? none cs).map fun (n, rest) => (-(n : Int), rest)
  | '+' :: cs => (takeNumber? none cs).map fun (n, rest) => ((n : Int), rest)
  | cs => (takeNumber? (some 4) cs).map fun (n, rest) => ((n : Int), rest)

/-- Reads a hyphen, with blanks before it. -/
def takeHyphen? (cs : List Char) : Option (List Char) :=
  match skipBlanks cs with
  | '-' :: rest => some rest
  | _ => none

/-- Reads a month or a day of the month, with blanks before it. -/
def takePart? (cs : List Char) : Option (Nat × List Char) :=
  takeNumber? (some 2) (skipBlanks cs)

/-- The date that a text stands for. -/
def ofText? (s : String) : Option Date := do
  let (year, cs) ← takeYear? (skipBlanks s.toList)
  let cs ← takeHyphen? cs
  let (month, cs) ← takePart? cs
  let cs ← takeHyphen? cs
  let (day, cs) ← takePart? cs
  if (skipBlanks cs).isEmpty then ofCivil? year month day else none

end Custody.Calendar.Date
