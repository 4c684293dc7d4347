import Custody.Count
import Custody.Reckoning
import Custody.Sentence.Basic

/-!
# The length of a sentence served in parts

The components of a sentence are served one after the other: the first starts on the date the whole
was passed, and each other where the one before it finished. How long a part is depends on where it
starts, so the parts are laid along the calendar.

* **`Sentence.aggregate`** lays out the parts.
* **`Aggregate.botusDaysFirst`** counts the days of committals that are served before the first
  standard determinate sentence.
-/

namespace Custody

open Custody.Calendar

/-- A component as it is served. -/
structure Part where
  identifier : Identifier
  track : Option Track
  start : Date
  /-- Where the custodial term ends; before `finish` only in an extended sentence. -/
  custodialEnd : Date
  finish : Date
deriving DecidableEq

namespace Part

/-- The days of the part. -/
def days (p : Part) : Int := p.start.daysUntil p.finish

/-- The days of the custodial term of the part. -/
def custodialDays (p : Part) : Int := p.start.daysUntil p.custodialEnd

end Part

/-- A sentence as it is served. -/
structure Aggregate where
  sentencedAt : Date
  /-- Where the last part finishes. -/
  finish : Date
  parts : List Part
deriving DecidableEq

namespace Aggregate

/-- The days of all parts. -/
def totalDays (a : Aggregate) : Int := a.sentencedAt.daysUntil a.finish

/-- The days of the custodial terms of all parts. -/
def custodialDays (a : Aggregate) : Int := totalOf Part.custodialDays a.parts

/-- Whether a part is on a track of standard determinate sentences. -/
def isSdsPart (p : Part) : Bool := p.track.any Track.isSds

/-- The days of committals before the first standard determinate sentence, if there is one. -/
def botusDaysFirst (a : Aggregate) : Int :=
  if a.parts.any isSdsPart then
    totalOf Part.days ((a.parts.takeWhile fun p => !isSdsPart p).filter (·.track = some .botus))
  else 0

end Aggregate

namespace Term

/-- Where the custodial term of a sentence that starts on a date ends, and where the whole of it
does. -/
def ends (t : Term) (start : Date) : Answered (Date × Date) :=
  match t with
  | .standard s => do
    let finish ← s.duration.endDate start
    return (finish, finish)
  | .botus duration => do
    let finish ← duration.endDate start
    return (finish, finish)
  | .extended custodial licence => do
    let custodialEnd ← custodial.endDate start
    return (custodialEnd, ← licence.endDate custodialEnd)

end Term

namespace Single

/-- The sentence as it is served from a date on. -/
def servedFrom (s : Single) (start : Date) : Answered Part := do
  let (custodialEnd, finish) ← s.term.ends start
  return { identifier := s.identifier, track := s.track, start, custodialEnd, finish }

end Single

namespace Sentence

/-- Lays out components from a date on: the parts, and where the last of them finishes. -/
def layOut (start : Date) : List Sentence → Answered (List Part × Date)
  | [] => .ok ([], start)
  | component :: rest => do
    let s ← orFail component.single? (.breach .nestedChain)
    let part ← s.servedFrom start
    let (parts, finish) ← layOut part.finish rest
    return (part :: parts, finish)

/-- The sentence as it is served. -/
def aggregate (s : Sentence) : Answered Aggregate := do
  if s.components.isEmpty then throw (.breach .emptyChain)
  let sentencedAt ← orFail s.sentencedAt? (.breach .noSentencingDate)
  let (parts, finish) ← layOut sentencedAt s.components
  return { sentencedAt, finish, parts }

/-- The days of a sentence that starts on a date. A chain starts when it was passed. -/
def lengthInDays (s : Sentence) (start : Date) : Answered Int :=
  match s with
  | single s => return (← s.servedFrom start).days
  | chain _ _ => return (← s.aggregate).totalDays

/-- The days of the custodial term of a sentence that starts on a date. A chain has no custodial
term of its own and counts in full. -/
def custodialLengthInDays (s : Sentence) (start : Date) : Answered Int :=
  match s.single?.map Single.term with
  | some (.extended custodial _) => custodial.lengthInDays start
  | _ => s.lengthInDays start

end Sentence

end Custody
