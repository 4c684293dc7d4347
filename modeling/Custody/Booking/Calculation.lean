import Custody.Booking.Timeline
import Custody.Outcome.EarlyRelease
import Custody.Outcome.OfUnits
import Custody.Sentence.Assembly
import Custody.Sentence.Classification
import Custody.Unit.Eligibility
import Custody.Unit.Release

/-!
# The calculation of a booking

A booking is calculated twice, once as the law stood when its sentences were passed and once as if
the early release scheme applied to every sentence that it could, and the two are merged in the
tranche that the booking falls in.

* **`Booking.pass`**: the dates of a booking under one assumption, with its units.
* **`Booking.calculate`**: the dates of a booking.
-/

namespace Custody

open Custody.Calendar

namespace Adjustments

/-- The types of a booking's adjustments that have an effect. -/
def typesWith (effect : AdjustmentEffect) : List AdjustmentType :=
  (Enumeration.all : List AdjustmentType).filter (·.effect = effect)

/-- The days of all entries with an effect that apply to a sentence. -/
def totalWith (a : Adjustments) (effect : AdjustmentEffect) (sentencedAt : Date)
    (sequences : List (UInt32 × UInt32)) : Int :=
  totalOf (a.totalDays · sentencedAt sequences) (typesWith effect)

/-- The adjustments of a unit. What was restored is taken off what was awarded once both are
totalled. -/
def appliedTo (a : Adjustments) (unit : Sentence) : Answered AppliedAdjustments := do
  let sentencedAt ← orFail unit.sentencedAt? (.breach .noSentencingDate)
  let total := fun effect => a.totalWith effect sentencedAt unit.sequences
  return {
    deductedDays := total .deduction
    sentenceExtensionDays := total .sentenceExtension
    releaseExtensionDays := max (total .releaseExtension - total .releaseRestoration) 0 }

end Adjustments

/-- What a pass over a booking comes to. -/
structure Pass where
  outcome : Outcome
  /-- The units in order, on their tracks. -/
  units : List Sentence
  /-- The calculation of each unit. -/
  calculations : List UnitCalculation

namespace Booking

/-- The schemes that are asked for. -/
def schemes (inputs : Inputs) : List Eligibility :=
  (Enumeration.all : List Eligibility).filter fun e => e ≠ .removal || inputs.calculateErsed

/-- Records the dates of schemes, one after the other. -/
def recordSchemes (config : Config) (offender : Offender) (unit : Sentence) (c : UnitCalculation)
    (schemes : List Eligibility) : Answered UnitCalculation :=
  schemes.foldlM (fun c e => do return (← e.apply config offender unit c).1) c

/-- The calculation of a unit of a booking. -/
def calculateUnit (config : Config) (inputs : Inputs) (b : Booking) (entry : TimelineEntry) :
    Answered UnitCalculation := do
  let adjustments ← b.adjustments.appliedTo entry.unit
  let c ← entry.unit.calculate config adjustments entry.recallAnchor
  recordSchemes config b.offender entry.unit c (schemes inputs)

/-- The dates of a booking under an assumption. -/
def pass (config : Config) (b : Booking) (inputs : Inputs) (assumption : Assumption) :
    Answered Pass := do
  if b.sentences.isEmpty then throw (.unsupported .noSentences)
  let units ← Sentence.assemble b.sentences
  let units ← units.mapM (Sentence.classify config inputs assumption)
  let entries ← timeline b.returnToCustody units
  let calculations ← entries.mapM (calculateUnit config inputs b)
  let outcome ← Outcome.ofUnits calculations
  return { outcome, units := entries.map TimelineEntry.unit, calculations }

/-- The dates of a booking. -/
def calculate (config : Config) (b : Booking) (inputs : Inputs) : Answered Outcome := do
  let standard ← b.pass config inputs .standard
  let early ← b.pass config inputs .early
  let tranche ← Outcome.allocateTranche config early.units standard.outcome
  return Outcome.mergeEarly config standard.outcome early.outcome tranche

end Booking

end Custody
