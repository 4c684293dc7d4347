import Custody.Json.Form

/-!
# Kinds of release dates

The dates that a sentence or a booking can have. A sentence ends on one expiry date, `sled` when
the whole of it ends there and `sed` when any licence ends earlier, and leads to one release date,
`crd` on licence and `ard` without.
-/

namespace Custody

/-- A kind of release date. -/
inductive DateKind where
  /-- Sentence and licence expiry. -/
  | sled
  /-- Sentence expiry. -/
  | sed
  /-- Licence expiry. -/
  | led
  /-- Conditional release. -/
  | crd
  /-- Automatic release. -/
  | ard
  /-- Parole eligibility. -/
  | ped
  /-- Home detention curfew eligibility. -/
  | hdced
  /-- Home detention curfew eligibility for sentences of four years and more. -/
  | hdced4plus
  /-- Early removal scheme eligibility. -/
  | ersed
  /-- Expiry of top-up supervision. -/
  | tused
  /-- Release after a recall. -/
  | prrd
  /-- End of the sentence before adjustments. -/
  | esed
deriving DecidableEq

instance : Enumeration DateKind where
  all := [.sled, .sed, .led, .crd, .ard, .ped, .hdced, .hdced4plus, .ersed, .tused, .prrd, .esed]
  name
    | .sled => "sled"
    | .sed => "sed"
    | .led => "led"
    | .crd => "crd"
    | .ard => "ard"
    | .ped => "ped"
    | .hdced => "hdced"
    | .hdced4plus => "hdced4plus"
    | .ersed => "ersed"
    | .tused => "tused"
    | .prrd => "prrd"
    | .esed => "esed"
  mem_all k := by cases k <;> decide
  nodup_all := by decide
  name_injective {a b} := by cases a <;> cases b <;> simp

namespace DateKind

/-- The abbreviation in capitals, as it is spoken of. -/
def abbreviation : DateKind → String
  | .sled => "SLED"
  | .sed => "SED"
  | .led => "LED"
  | .crd => "CRD"
  | .ard => "ARD"
  | .ped => "PED"
  | .hdced => "HDCED"
  | .hdced4plus => "HDCED4PLUS"
  | .ersed => "ERSED"
  | .tused => "TUSED"
  | .prrd => "PRRD"
  | .esed => "ESED"

/-- The kinds whose dates depend on whether early release is assumed. -/
def earlyReleaseSensitive : List DateKind :=
  [.crd, .ard, .ped, .hdced, .hdced4plus, .ersed, .tused]

/-- Whether dates of the kind depend on whether early release is assumed. -/
def isEarlyReleaseSensitive (k : DateKind) : Bool :=
  earlyReleaseSensitive.contains k

end DateKind

end Custody
