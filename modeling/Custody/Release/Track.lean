import Custody.Json.Form

/-!
# Tracks and tranches

A `Track` is the release regime that a sentence falls under, and fixes the fraction of it that is
served. A `Tranche` is the part of the early release scheme, if any, that governs a booking.
-/

namespace Custody

/-- A release regime. -/
inductive Track where
  | sdsStandard
  | sdsEarly
  | sdsPlus
  | edsAutomatic
  | edsDiscretionary
  | recall
  /-- Committal for a breach of top-up supervision. -/
  | botus
deriving DecidableEq

instance : Enumeration Track where
  all := [.sdsStandard, .sdsEarly, .sdsPlus, .edsAutomatic, .edsDiscretionary, .recall, .botus]
  name
    | .sdsStandard => "sds_standard_release"
    | .sdsEarly => "sds_early_release"
    | .sdsPlus => "sds_plus_release"
    | .edsAutomatic => "eds_automatic_release"
    | .edsDiscretionary => "eds_discretionary_release"
    | .recall => "recall"
    | .botus => "botus"
  mem_all k := by cases k <;> decide
  nodup_all := by decide
  name_injective {a b} := by cases a <;> cases b <;> simp

instance : ToString Track := ⟨Enumeration.name⟩

namespace Track

/-- The tracks of standard determinate sentences. -/
def isSds : Track → Bool
  | .sdsStandard | .sdsEarly | .sdsPlus => true
  | _ => false

end Track

/-- The part of the early release scheme that governs a booking; `tranche0` is none of it. -/
inductive Tranche where
  | tranche0
  | tranche1
  | tranche2
deriving DecidableEq

instance : Enumeration Tranche where
  all := [.tranche0, .tranche1, .tranche2]
  name
    | .tranche0 => "tranche_0"
    | .tranche1 => "tranche_1"
    | .tranche2 => "tranche_2"
  mem_all k := by cases k <;> decide
  nodup_all := by decide
  name_injective {a b} := by cases a <;> cases b <;> simp

end Custody
