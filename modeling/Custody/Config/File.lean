import Custody.Enumeration

/-!
# Configuration files

The files that a configuration is made up of, in the order in which they are loaded.
-/

namespace Custody

/-- A part of the configuration, which has a file of its own. -/
inductive ConfigFile where
  | releasePoints
  | hdced
  | ersed
  | tused
  | earlyRelease
  | commencementDates
  | classification
  | bankHolidays
deriving DecidableEq

instance : Enumeration ConfigFile where
  all := [.releasePoints, .hdced, .ersed, .tused, .earlyRelease, .commencementDates,
    .classification, .bankHolidays]
  name
    | .releasePoints => "release_points.yaml"
    | .hdced => "hdced.yaml"
    | .ersed => "ersed.yaml"
    | .tused => "tused.yaml"
    | .earlyRelease => "early_release.yaml"
    | .commencementDates => "commencement_dates.yaml"
    | .classification => "classification.yaml"
    | .bankHolidays => "bank_holidays.yaml"
  mem_all k := by cases k <;> decide
  nodup_all := by decide
  name_injective {a b} := by cases a <;> cases b <;> simp

end Custody
