import Custody.Config.Check
import Custody.Yaml.Reader

/-!
# Loading a configuration

Each part of the configuration is a YAML file of its own. Settings that are not known are passed
over. Files are loaded one after the other, and the first that is missing or cannot be read is
reported; the settings are checked once all files are there.

* **`Config.assemble`** reads the parts, **`Config.load`** checks them too.
-/

namespace Custody

open Custody.Calendar

namespace Config

/-! ### The parts -/

/-- Multipliers by track; no value is a table without any. -/
def multipliers? (y : Yaml) : Option (Table Track Decimal) := do
  let entries ← if y.isAbsent then some [] else y.entries?
  let multipliers ← entries.mapM fun (name, value) => do
    some ((← (Enumeration.ofName? name : Option Track)), ← value.decimal?)
  some (Table.ofList multipliers)

/-- Release points. Multipliers for parole may be left out. -/
def releasePoints? (y : Yaml) : Option ReleasePoints := do
  let entries ← y.entries?
  some {
    multipliers := ← entries.required? "multipliers" multipliers?
    paroleMultipliers :=
      ← entries.withDefault? "parole_eligibility_multipliers" Table.empty multipliers?
    licenceThresholdMonths := ← entries.required? "licence_threshold_months" Yaml.count? }

/-- The terms of one variant of home detention curfew. Limits in years may be left out. -/
def curfewTerms? (y : Yaml) : Option CurfewTerms := do
  let entries ← y.entries?
  some {
    tracks := ← entries.required? "applicable_tracks" fun y => do (← y.items?).mapM Yaml.named?
    minimumDays := ← entries.required? "minimum_sentence_length_days" Yaml.days?
    minimumYears := ← entries.optional? "minimum_sentence_length_years" Yaml.count?
    maximumYears := ← entries.optional? "maximum_sentence_length_years" Yaml.count?
    minimumEligibilityDays := ← entries.required? "minimum_eligibility_period_days" Yaml.days?
    minimumCustodialDays := ← entries.required? "minimum_custodial_period_days" Yaml.days?
    midpointDays := ← entries.required? "custodial_period_mid_point_days" Yaml.days?
    deductionDays := ← entries.required? "deduction_days" Yaml.days?
    excludesSdsPlusChains := ← entries.withDefault? "excludes_sds_plus_chains" false Yaml.bool? }

/-- Both variants of home detention curfew. -/
def curfews? (y : Yaml) : Option (CurfewTerms × CurfewTerms) := do
  let entries ← y.entries?
  some (← entries.required? "hdced" curfewTerms?, ← entries.required? "hdced4plus" curfewTerms?)

/-- A fraction, and when it comes into force. -/
def effectiveFraction? (y : Yaml) : Option EffectiveFraction := do
  let entries ← y.entries?
  some {
    effectiveFrom := ← entries.required? "effective_from" Yaml.date?
    fraction := ← entries.required? "fraction" Yaml.decimal? }

/-- The terms of the early removal scheme. -/
def removalTerms? (y : Yaml) : Option RemovalTerms := do
  let entries ← y.entries?
  some {
    maximumDays := ← entries.required? "max_period_days" Yaml.days?
    fractions := ← entries.required? "minimum_custodial_fractions" fun y => do
      (← y.items?).mapM effectiveFraction? }

/-- The terms of top-up supervision. -/
def supervisionTerms? (y : Yaml) : Option SupervisionTerms := do
  let entries ← y.entries?
  some {
    periodMonths := ← entries.required? "supervision_period_months" Yaml.count?
    minimumDays := ← entries.required? "minimum_sentence_length_days" Yaml.days?
    maximumYears := ← entries.required? "maximum_sentence_length_years" Yaml.count?
    minimumAgeAtRelease := ← entries.required? "minimum_age_at_release_years" Yaml.count? }

/-- The terms of the early release scheme. -/
def earlyReleaseTerms? (y : Yaml) : Option EarlyReleaseTerms := do
  let entries ← y.entries?
  some {
    trancheOneCommencement := ← entries.required? "tranche_one_commencement_date" Yaml.date?
    trancheTwoCommencement := ← entries.required? "tranche_two_commencement_date" Yaml.date?
    trancheTwoYears := ← entries.required? "tranche_two_threshold_years" Yaml.count?
    violentExclusionYears := ← entries.required? "violent_exclusion_threshold_years" Yaml.count? }

/-- The commencement of the acts. -/
def commencements? (y : Yaml) : Option Commencements := do
  let entries ← y.entries?
  some {
    cja2003 := ← entries.required? "cja_2003" Yaml.date?
    ora := ← entries.required? "ora" Yaml.date?
    edsDiscretionary := ← entries.required? "eds_discretionary" Yaml.date?
    sdsPlus := ← entries.required? "sds_plus" Yaml.date?
    pcsc := ← entries.required? "pcsc" Yaml.date? }

/-- The lengths that classification turns on. -/
def classificationTerms? (y : Yaml) : Option ClassificationTerms := do
  let entries ← y.entries?
  some {
    sdsPlusMinimumYears := ← entries.required? "sds_plus_minimum_years" Yaml.count?
    listCMinimumYears := ← entries.required? "sds_plus_list_c_minimum_years" Yaml.count?
    listCMaximumYears := ← entries.required? "sds_plus_list_c_maximum_years" Yaml.count?
    edsAutomaticMaximumYears :=
      ← entries.required? "eds_automatic_maximum_custodial_years" Yaml.count? }

/-- Puts a date into a list in order, unless it is there. -/
def insertDate (d : Date) : List Date → List Date
  | [] => [d]
  | e :: rest =>
    if d < e then d :: e :: rest
    else if d = e then e :: rest
    else e :: insertDate d rest

/-- The bank holidays, put in order. -/
def bankHolidays? (y : Yaml) : Option BankHolidays := do
  let entries ← y.entries?
  let dates ← entries.required? "dates" fun y => do (← y.items?).mapM Yaml.date?
  some { division := ← entries.required? "division" Yaml.text?, dates := dates.foldr insertDate [] }

/-! ### The whole -/

/-- Reads a file of a directory. -/
def readFile {α : Type} (directory : String) (text? : ConfigFile → Option String)
    (file : ConfigFile) (read? : Yaml → Option α) : Answered α := do
  let path := directory ++ "/" ++ Enumeration.name file
  let text ← orFail (text? file) (.configNotFound path)
  orFail ((Yaml.ofText? text).bind read?) (.configUnreadable path)

/-- The configuration of the files of a directory. -/
def assemble (directory : String) (text? : ConfigFile → Option String) : Answered Config := do
  let releasePoints ← readFile directory text? .releasePoints releasePoints?
  let (hdced, hdced4plus) ← readFile directory text? .hdced curfews?
  let ersed ← readFile directory text? .ersed removalTerms?
  let tused ← readFile directory text? .tused supervisionTerms?
  let earlyRelease ← readFile directory text? .earlyRelease earlyReleaseTerms?
  let commencements ← readFile directory text? .commencementDates commencements?
  let classification ← readFile directory text? .classification classificationTerms?
  let bankHolidays ← readFile directory text? .bankHolidays bankHolidays?
  return ofParts {
    releasePoints, hdced, hdced4plus, ersed, tused, earlyRelease, commencements, classification,
    bankHolidays }

/-- The configuration of the files of a directory, if it can be used. -/
def load (directory : String) (text? : ConfigFile → Option String) : Answered Config := do
  let config ← assemble directory text?
  config.check
  return config

end Config

end Custody
