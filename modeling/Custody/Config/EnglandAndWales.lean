import Custody.Config.Loader

/-!
# England and Wales

The terms in force in England and Wales, as the texts of the configuration files and as the
configuration that they make.

* **`EnglandAndWales.text`**: the files.
* **`EnglandAndWales.config`**: the configuration.
-/

namespace Custody.EnglandAndWales

open Custody.Calendar

/-! ### The files -/

/-- The fractions of sentences that are served. -/
def releasePointsText : String :=
  "\n".intercalate [
    "multipliers:",
    "  sds_standard_release: \"0.5\"",
    "  sds_early_release: \"0.4\"",
    "  sds_plus_release: \"0.66666\"",
    "  eds_automatic_release: \"0.66666\"",
    "  eds_discretionary_release: \"1.0\"",
    "  recall: \"1.0\"",
    "  botus: \"1.0\"",
    "parole_eligibility_multipliers:",
    "  eds_discretionary_release: \"0.66666\"",
    "licence_threshold_months: 12"]

/-- The terms of home detention curfew. -/
def hdcedText : String :=
  "\n".intercalate [
    "hdced:",
    "  applicable_tracks:",
    "    - sds_standard_release",
    "    - sds_early_release",
    "  minimum_sentence_length_days: 84",
    "  maximum_sentence_length_years: 4",
    "  minimum_eligibility_period_days: 28",
    "  minimum_custodial_period_days: 14",
    "  custodial_period_mid_point_days: 360",
    "  deduction_days: 179",
    "hdced4plus:",
    "  applicable_tracks:",
    "    - sds_early_release",
    "  minimum_sentence_length_days: 84",
    "  minimum_sentence_length_years: 4",
    "  minimum_eligibility_period_days: 28",
    "  minimum_custodial_period_days: 14",
    "  custodial_period_mid_point_days: 360",
    "  deduction_days: 179",
    "  excludes_sds_plus_chains: true"]

/-- The terms of the early removal scheme. -/
def ersedText : String :=
  "\n".intercalate [
    "max_period_days: 544",
    "minimum_custodial_fractions:",
    "  - effective_from: \"2005-04-04\"",
    "    fraction: \"0.5\"",
    "  - effective_from: \"2023-06-26\"",
    "    fraction: \"0.33333\""]

/-- The terms of top-up supervision. -/
def tusedText : String :=
  "\n".intercalate [
    "supervision_period_months: 12",
    "minimum_sentence_length_days: 1",
    "maximum_sentence_length_years: 2",
    "minimum_age_at_release_years: 18"]

/-- The terms of the early release scheme. -/
def earlyReleaseText : String :=
  "\n".intercalate [
    "tranche_one_commencement_date: \"2024-09-10\"",
    "tranche_two_commencement_date: \"2024-10-22\"",
    "tranche_two_threshold_years: 5",
    "violent_exclusion_threshold_years: 4"]

/-- When the acts came into force. -/
def commencementDatesText : String :=
  "\n".intercalate [
    "cja_2003: \"2005-04-04\"",
    "ora: \"2015-02-01\"",
    "eds_discretionary: \"2015-04-13\"",
    "sds_plus: \"2020-04-01\"",
    "pcsc: \"2022-06-28\""]

/-- The lengths that classification turns on. -/
def classificationText : String :=
  "\n".intercalate [
    "sds_plus_minimum_years: 7",
    "sds_plus_list_c_minimum_years: 4",
    "sds_plus_list_c_maximum_years: 7",
    "eds_automatic_maximum_custodial_years: 10"]

/-- The bank holidays. -/
def bankHolidaysText : String :=
  let dates := [
    "2020-01-01", "2020-04-10", "2020-04-13", "2020-05-08", "2020-05-25", "2020-08-31",
    "2020-12-25", "2020-12-28",
    "2021-01-01", "2021-04-02", "2021-04-05", "2021-05-03", "2021-05-31", "2021-08-30",
    "2021-12-27", "2021-12-28",
    "2022-01-03", "2022-04-15", "2022-04-18", "2022-05-02", "2022-06-02", "2022-06-03",
    "2022-08-29", "2022-09-19", "2022-12-26", "2022-12-27",
    "2023-01-02", "2023-04-07", "2023-04-10", "2023-05-01", "2023-05-08", "2023-05-29",
    "2023-08-28", "2023-12-25", "2023-12-26",
    "2024-01-01", "2024-03-29", "2024-04-01", "2024-05-06", "2024-05-27", "2024-08-26",
    "2024-12-25", "2024-12-26",
    "2025-01-01", "2025-04-18", "2025-04-21", "2025-05-05", "2025-05-26", "2025-08-25",
    "2025-12-25", "2025-12-26",
    "2026-01-01", "2026-04-03", "2026-04-06", "2026-05-04", "2026-05-25", "2026-08-31",
    "2026-12-25", "2026-12-28",
    "2027-01-01", "2027-03-26", "2027-03-29", "2027-05-03", "2027-05-31", "2027-08-30",
    "2027-12-27", "2027-12-28"]
  "division: england-and-wales\ndates:\n"
    ++ "\n".intercalate (dates.map fun date => "  - " ++ date)

/-- The files. -/
def text : ConfigFile → String
  | .releasePoints => releasePointsText
  | .hdced => hdcedText
  | .ersed => ersedText
  | .tused => tusedText
  | .earlyRelease => earlyReleaseText
  | .commencementDates => commencementDatesText
  | .classification => classificationText
  | .bankHolidays => bankHolidaysText

/-! ### The configuration -/

/-- A date that the calendar has. -/
def on (year month day : Int)
    (exists_ : (Date.ofCivil? year month day).isSome := by decide) : Date :=
  (Date.ofCivil? year month day).get exists_

/-- The fractions of sentences that are served. -/
def releasePoints : ReleasePoints where
  multipliers := Table.ofList [(.sdsStandard, ⟨5, 1⟩), (.sdsEarly, ⟨4, 1⟩), (.sdsPlus, ⟨66666, 5⟩),
    (.edsAutomatic, ⟨66666, 5⟩), (.edsDiscretionary, ⟨10, 1⟩), (.recall, ⟨10, 1⟩),
    (.botus, ⟨10, 1⟩)]
  paroleMultipliers := Table.ofList [(.edsDiscretionary, ⟨66666, 5⟩)]
  licenceThresholdMonths := 12

/-- Home detention curfew below four years. -/
def hdced : CurfewTerms where
  tracks := [.sdsStandard, .sdsEarly]
  minimumDays := 84
  minimumYears := none
  maximumYears := some 4
  minimumEligibilityDays := 28
  minimumCustodialDays := 14
  midpointDays := 360
  deductionDays := 179
  excludesSdsPlusChains := false

/-- Home detention curfew from four years, which only early release sentences carry. -/
def hdced4plus : CurfewTerms where
  tracks := [.sdsEarly]
  minimumDays := 84
  minimumYears := some 4
  maximumYears := none
  minimumEligibilityDays := 28
  minimumCustodialDays := 14
  midpointDays := 360
  deductionDays := 179
  excludesSdsPlusChains := true

/-- The early removal scheme. -/
def ersed : RemovalTerms where
  maximumDays := 544
  fractions := [⟨on 2005 4 4, ⟨5, 1⟩⟩, ⟨on 2023 6 26, ⟨33333, 5⟩⟩]

/-- Top-up supervision. -/
def tused : SupervisionTerms where
  periodMonths := 12
  minimumDays := 1
  maximumYears := 2
  minimumAgeAtRelease := 18

/-- The early release scheme. -/
def earlyRelease : EarlyReleaseTerms where
  trancheOneCommencement := on 2024 9 10
  trancheTwoCommencement := on 2024 10 22
  trancheTwoYears := 5
  violentExclusionYears := 4

/-- When the acts came into force. -/
def commencements : Commencements where
  cja2003 := on 2005 4 4
  ora := on 2015 2 1
  edsDiscretionary := on 2015 4 13
  sdsPlus := on 2020 4 1
  pcsc := on 2022 6 28

/-- The lengths that classification turns on. -/
def classification : ClassificationTerms where
  sdsPlusMinimumYears := 7
  listCMinimumYears := 4
  listCMaximumYears := 7
  edsAutomaticMaximumYears := 10

/-- The bank holidays of 2020 to 2027. -/
def bankHolidays : BankHolidays where
  division := "england-and-wales"
  dates := [
    on 2020 1 1, on 2020 4 10, on 2020 4 13, on 2020 5 8, on 2020 5 25, on 2020 8 31,
    on 2020 12 25, on 2020 12 28, on 2021 1 1, on 2021 4 2, on 2021 4 5, on 2021 5 3,
    on 2021 5 31, on 2021 8 30, on 2021 12 27, on 2021 12 28, on 2022 1 3, on 2022 4 15,
    on 2022 4 18, on 2022 5 2, on 2022 6 2, on 2022 6 3, on 2022 8 29, on 2022 9 19,
    on 2022 12 26, on 2022 12 27, on 2023 1 2, on 2023 4 7, on 2023 4 10, on 2023 5 1,
    on 2023 5 8, on 2023 5 29, on 2023 8 28, on 2023 12 25, on 2023 12 26, on 2024 1 1,
    on 2024 3 29, on 2024 4 1, on 2024 5 6, on 2024 5 27, on 2024 8 26, on 2024 12 25,
    on 2024 12 26, on 2025 1 1, on 2025 4 18, on 2025 4 21, on 2025 5 5, on 2025 5 26,
    on 2025 8 25, on 2025 12 25, on 2025 12 26, on 2026 1 1, on 2026 4 3, on 2026 4 6,
    on 2026 5 4, on 2026 5 25, on 2026 8 31, on 2026 12 25, on 2026 12 28, on 2027 1 1,
    on 2027 3 26, on 2027 3 29, on 2027 5 3, on 2027 5 31, on 2027 8 30, on 2027 12 27,
    on 2027 12 28]

/-- The terms in force. -/
def config : Config where
  releasePoints := releasePoints
  hdced := hdced
  hdced4plus := hdced4plus
  ersed := ersed
  tused := tused
  earlyRelease := earlyRelease
  commencements := commencements
  classification := classification
  bankHolidays := bankHolidays

end Custody.EnglandAndWales
