import Custody.Failure
import Custody.Sentence.Basic

/-!
# The timeline of a booking

The units of a booking in order of sentencing, then of case and line. A unit that has been recalled
is anchored to the return to custody, which cannot be before it was passed.

* **`timeline`**: the units in order, each with its anchor.
-/

namespace Custody

open Custody.Calendar

/-- A unit in its place. -/
structure TimelineEntry where
  unit : Sentence
  sentencedAt : Date
  /-- The return to custody after the recall of the unit. -/
  recallAnchor : Option Date

namespace TimelineEntry

/-- The order of entries: by date, then case and line. -/
def notAfter (a b : TimelineEntry) : Bool :=
  let (caseA, lineA) := a.unit.sequence
  let (caseB, lineB) := b.unit.sequence
  a.sentencedAt < b.sentencedAt
    || (a.sentencedAt = b.sentencedAt && (caseA < caseB || (caseA = caseB && lineA ≤ lineB)))

/-- The entry of a unit. -/
def ofUnit (returned : Option Date) (unit : Sentence) : Answered TimelineEntry := do
  let sentencedAt ← orFail unit.sentencedAt? (.breach .noSentencingDate)
  if !unit.recallType.isRecall then return { unit, sentencedAt, recallAnchor := none }
  match returned with
  | some date =>
    if date < sentencedAt then throw (.unsupported (.returnedBeforeSentence date sentencedAt))
    return { unit, sentencedAt, recallAnchor := some date }
  | none => return { unit, sentencedAt, recallAnchor := none }

end TimelineEntry

/-- The units in order. -/
def timeline (returned : Option Date) (units : List Sentence) : Answered (List TimelineEntry) := do
  let entries ← units.mapM (TimelineEntry.ofUnit returned)
  return entries.mergeSort TimelineEntry.notAfter

/-- The date of the first unit that was passed. -/
def earliestSentencing? (entries : List TimelineEntry) : Option Date :=
  (entries.map TimelineEntry.sentencedAt).head?

/-- The date of the last unit that was passed. -/
def latestSentencing? (entries : List TimelineEntry) : Option Date :=
  (entries.map TimelineEntry.sentencedAt).getLast?

end Custody
