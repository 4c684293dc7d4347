import Custody.Json.Form

/-!
# Offences

The offence that a sentence was passed for, with the lists that it is marked as being on.
-/

namespace Custody

open Custody.Calendar

/-- The lists of offences that decide whether a sentence is an SDS+ one. -/
structure OffenceMarks where
  /-- In schedule 15, with life as its maximum. -/
  schedule15Life : Bool := false
  /-- On the list for sentences of four to under seven years. -/
  pcscSds : Bool := false
  /-- On the list for sentences of seven years or more. -/
  pcscSdsPlus : Bool := false
  /-- On the list for sentences under section 250. -/
  pcscSection250 : Bool := false
deriving DecidableEq

/-- An offence. -/
structure Offence where
  committedAt : Date
  code : String
  marks : OffenceMarks
deriving DecidableEq

/-- What keeps an offence out of the early release scheme. -/
inductive Exclusion where
  | notExcluded
  | sexual
  /-- Excluded only when the sentence is long. -/
  | violent
  | domesticAbuse
  | nationalSecurity
  | terrorism
deriving DecidableEq

instance : Enumeration Exclusion where
  all := [.notExcluded, .sexual, .violent, .domesticAbuse, .nationalSecurity, .terrorism]
  name
    | .notExcluded => "none"
    | .sexual => "sexual"
    | .violent => "violent"
    | .domesticAbuse => "domestic_abuse"
    | .nationalSecurity => "national_security"
    | .terrorism => "terrorism"
  mem_all k := by cases k <;> decide
  nodup_all := by decide
  name_injective {a b} := by cases a <;> cases b <;> simp

instance : JsonForm OffenceMarks where
  toJson m := .obj <|
    Json.member "is_schedule_15_maximum_life" m.schedule15Life
      ++ Json.member "is_pcsc_sds" m.pcscSds
      ++ Json.member "is_pcsc_sds_plus" m.pcscSdsPlus
      ++ Json.member "is_pcsc_sec250" m.pcscSection250
  ofJson? j := do
    let members ← j.members?
    some {
      schedule15Life := ← members.withDefault? "is_schedule_15_maximum_life" false
      pcscSds := ← members.withDefault? "is_pcsc_sds" false
      pcscSdsPlus := ← members.withDefault? "is_pcsc_sds_plus" false
      pcscSection250 := ← members.withDefault? "is_pcsc_sec250" false }

instance : JsonForm Offence where
  toJson o := .obj <|
    Json.member "committed_at" o.committedAt
      ++ Json.member "offence_code" o.code
      ++ Json.member "indicators" o.marks
  ofJson? j := do
    let members ← j.members?
    some {
      committedAt := ← members.required? "committed_at"
      code := ← members.required? "offence_code"
      marks := ← members.withDefault? "indicators" {} }

end Custody
