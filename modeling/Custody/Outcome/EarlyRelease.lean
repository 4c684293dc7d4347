import Custody.Config.Basic
import Custody.Outcome.Basic
import Custody.Sentence.Aggregate

/-!
# Early release

The early release scheme has started in tranches. A booking is put into one by its longest early
release sentence, and dates from before the tranche has started are held until it has.

* **`Outcome.allocateTranche`**: the tranche of a booking.
* **`Outcome.mergeEarly`**: the dates of a booking in a tranche.
-/

namespace Custody

open Custody.Calendar

namespace Sentence

/-- Whether a unit of the early release scheme is long enough for the second tranche. -/
def inTrancheTwo (config : Config) (unit : Sentence) : Answered Bool := do
  let a ← unit.aggregate
  let threshold ←
    (Duration.of .years config.earlyRelease.trancheTwoYears).lengthInDays a.sentencedAt
  return threshold ≤ a.totalDays

end Sentence

namespace Outcome

/-- The tranche of the units in the scheme, those after one in the second not looked at. -/
def trancheOf (config : Config) : List Sentence → Answered Tranche
  | [] => .ok .tranche0
  | unit :: rest => do
    if !unit.componentTracks.contains .sdsEarly then return (← trancheOf config rest)
    if ← unit.inTrancheTwo config then return .tranche2
    match ← trancheOf config rest with
    | .tranche2 => return .tranche2
    | _ => return .tranche1

/-- The tranche of a booking: none when it leads to release before the scheme has started. -/
def allocateTranche (config : Config) (units : List Sentence) (standard : Outcome) :
    Answered Tranche :=
  if standard.releaseDate?.any (· < config.earlyRelease.trancheOneCommencement) then .ok .tranche0
  else trancheOf config units

/-- The breakdown of a date that is held until a tranche starts. -/
def heldUntil (commencement unadjusted : Date) : Breakdown :=
  (Breakdown.of commencement unadjusted).withRule .trancheCommencement

/-- What takes the place of a standard date in a tranche that starts on a date: the early one if it
is not before then; otherwise nothing if the standard one is not before then; or else the start. -/
def replacement? (commencement : Date) (standard early : Outcome) (kind : DateKind) :
    Option Breakdown :=
  let stands := (standard.date? kind).any (commencement ≤ ·)
  match early.breakdown? kind with
  | some b =>
    if commencement ≤ b.releaseDate then some b
    else if stands then none
    else some (heldUntil commencement b.releaseDate)
  | none => if stands then none else (standard.date? kind).map (heldUntil commencement)

/-- The dates of a booking in a tranche. -/
def mergeEarly (config : Config) (standard early : Outcome) (tranche : Tranche) : Outcome :=
  let merged := { standard with tranche }
  match config.earlyRelease.commencement? tranche with
  | none => merged
  | some commencement =>
    DateKind.earlyReleaseSensitive.foldl
      (fun o kind => o.recordIfSome kind (replacement? commencement standard early kind)) merged

end Outcome

end Custody
