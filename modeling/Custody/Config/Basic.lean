import Custody.Failure

/-!
# Configuration

The terms that statute and policy set, and that change over time: fractions, lengths, commencement
dates and holidays. A `Config` is put together from its parts by `Config.ofParts`, which sorts the
fractions of the early removal scheme by the date they come into force.

* **`RemovalTerms.fractionOn?`**: the fraction in force on a date is the one that came into force
  last.
-/

namespace Custody

open Custody.Calendar

/-- Where in a sentence release falls. -/
structure ReleasePoints where
  /-- The fraction of a sentence that is served before release. -/
  multipliers : Table Track Decimal
  /-- The fraction of a sentence that is served before parole can be considered. -/
  paroleMultipliers : Table Track Decimal
  /-- A sentence of this length or more leads to release on licence, whenever the offence was. -/
  licenceThresholdMonths : UInt32
deriving DecidableEq

/-- The terms of home detention curfew, of which there are two variants. -/
structure CurfewTerms where
  /-- The tracks on which it is given. -/
  tracks : List Track
  minimumDays : Int
  /-- A shorter sentence does not carry the date. -/
  minimumYears : Option UInt32
  /-- A sentence of this length or more does not carry the date. -/
  maximumYears : Option UInt32
  /-- The least that is served of a sentence that is short of the midpoint. -/
  minimumEligibilityDays : Int
  /-- The least that is served after sentencing. -/
  minimumCustodialDays : Int
  /-- The days in custody from which the date is counted back from release. -/
  midpointDays : Int
  /-- How far before release the date is, from the midpoint on. -/
  deductionDays : Int
  /-- Whether an SDS+ sentence anywhere in a chain rules the date out. -/
  excludesSdsPlusChains : Bool
deriving DecidableEq

/-- A fraction that holds for sentences passed from a date on. -/
structure EffectiveFraction where
  effectiveFrom : Date
  fraction : Decimal
deriving DecidableEq

/-- The terms of the early removal scheme. -/
structure RemovalTerms where
  /-- The longest time before release that removal may take place. -/
  maximumDays : Int
  /-- The least that is served before, by date of sentencing. -/
  fractions : List EffectiveFraction
deriving DecidableEq

namespace RemovalTerms

/-- The fractions in the order in which they come into force, those of one date as listed. -/
def sorted (t : RemovalTerms) : RemovalTerms :=
  { t with fractions := t.fractions.mergeSort fun a b => a.effectiveFrom ≤ b.effectiveFrom }

/-- The fraction in force on a date: the last that is listed as effective by then. -/
def fractionOn? (t : RemovalTerms) (date : Date) : Option Decimal :=
  (t.fractions.reverse.find? (·.effectiveFrom ≤ date)).map EffectiveFraction.fraction

end RemovalTerms

/-- The terms of top-up supervision. -/
structure SupervisionTerms where
  periodMonths : UInt32
  /-- A sentence has to be longer than this. -/
  minimumDays : Int
  /-- A sentence has to be shorter than this. -/
  maximumYears : UInt32
  minimumAgeAtRelease : UInt32
deriving DecidableEq

/-- The terms of the early release scheme. -/
structure EarlyReleaseTerms where
  trancheOneCommencement : Date
  trancheTwoCommencement : Date
  /-- From this length of an early release sentence on, the booking is in tranche two. -/
  trancheTwoYears : UInt32
  /-- From this length on, a violent offence is left out of the scheme. -/
  violentExclusionYears : UInt32
deriving DecidableEq

namespace EarlyReleaseTerms

/-- When a tranche starts. -/
def commencement? (t : EarlyReleaseTerms) : Tranche → Option Date
  | .tranche0 => none
  | .tranche1 => some t.trancheOneCommencement
  | .tranche2 => some t.trancheTwoCommencement

end EarlyReleaseTerms

/-- When the acts came into force that classification turns on. -/
structure Commencements where
  /-- Earlier offences are not covered. -/
  cja2003 : Date
  ora : Date
  edsDiscretionary : Date
  sdsPlus : Date
  pcsc : Date
deriving DecidableEq

/-- The lengths of sentences that classification turns on. -/
structure ClassificationTerms where
  sdsPlusMinimumYears : UInt32
  listCMinimumYears : UInt32
  /-- Exclusive. -/
  listCMaximumYears : UInt32
  /-- A custodial term of this length or more is discretionary. -/
  edsAutomaticMaximumYears : UInt32
deriving DecidableEq

/-- The bank holidays of a jurisdiction, in order and without repetitions. -/
structure BankHolidays where
  division : String
  dates : List Date
deriving DecidableEq

/-- The terms that calculations are made under. -/
structure Config where
  releasePoints : ReleasePoints
  hdced : CurfewTerms
  hdced4plus : CurfewTerms
  ersed : RemovalTerms
  tused : SupervisionTerms
  earlyRelease : EarlyReleaseTerms
  commencements : Commencements
  classification : ClassificationTerms
  bankHolidays : BankHolidays
deriving DecidableEq

namespace Config

/-- A configuration of parts in any order. -/
def ofParts (parts : Config) : Config :=
  { parts with ersed := parts.ersed.sorted }

end Config

end Custody
