import Custody.Json.Form

/-!
# Adjustments

Days that are credited or added to the sentences of a booking, by their cause. An entry applies to
the sentences passed within its range of dates, and where it names a line of the record, to the
sentence on that line alone.

* **`AdjustmentEntry.covers`** decides whether an entry applies to a sentence.
* **`Adjustments.totalDays`** counts every entry that applies once.
-/

namespace Custody

open Custody.Calendar

/-- What an adjustment is made for. -/
inductive AdjustmentType where
  | remand
  | taggedBail
  | custodyAbroad
  | unlawfullyAtLarge
  | appealApplicant
  | additionalDaysAwarded
  | additionalDaysRestored
  | unusedDeductions
deriving DecidableEq

instance : Enumeration AdjustmentType where
  all := [.remand, .taggedBail, .custodyAbroad, .unlawfullyAtLarge, .appealApplicant,
    .additionalDaysAwarded, .additionalDaysRestored, .unusedDeductions]
  name
    | .remand => "remand"
    | .taggedBail => "tagged_bail"
    | .custodyAbroad => "time_spent_in_custody_abroad"
    | .unlawfullyAtLarge => "unlawfully_at_large"
    | .appealApplicant => "time_spent_as_an_appeal_applicant"
    | .additionalDaysAwarded => "additional_days_awarded"
    | .additionalDaysRestored => "restoration_of_additional_days_awarded"
    | .unusedDeductions => "unused_deductions"
  mem_all k := by cases k <;> decide
  nodup_all := by decide
  name_injective {a b} := by cases a <;> cases b <;> simp

/-- What an adjustment does to the dates of a sentence. -/
inductive AdjustmentEffect where
  /-- Brings every date forward. -/
  | deduction
  /-- Puts every date back. -/
  | sentenceExtension
  /-- Puts the release point back and leaves expiry where it is. -/
  | releaseExtension
  /-- Takes back an extension of the release point. -/
  | releaseRestoration
  /-- Changes nothing. -/
  | informational
deriving DecidableEq

instance : Enumeration AdjustmentEffect where
  all := [.deduction, .sentenceExtension, .releaseExtension, .releaseRestoration, .informational]
  name
    | .deduction => "Deduction"
    | .sentenceExtension => "SentenceExtension"
    | .releaseExtension => "ReleaseExtension"
    | .releaseRestoration => "ReleaseRestoration"
    | .informational => "Informational"
  mem_all k := by cases k <;> decide
  nodup_all := by decide
  name_injective {a b} := by cases a <;> cases b <;> simp

namespace AdjustmentType

/-- What an adjustment of a type does. -/
def effect : AdjustmentType → AdjustmentEffect
  | .remand | .taggedBail | .custodyAbroad => .deduction
  | .unlawfullyAtLarge | .appealApplicant => .sentenceExtension
  | .additionalDaysAwarded => .releaseExtension
  | .additionalDaysRestored => .releaseRestoration
  | .unusedDeductions => .informational

end AdjustmentType

/-- A number of days, and the sentences it is for. -/
structure AdjustmentEntry where
  days : UInt32
  /-- The first date of sentencing that it is for. -/
  appliesFrom : Option Date := none
  /-- The last date of sentencing that it is for. -/
  appliesTo : Option Date := none
  /-- The line of the sentence that it is for. -/
  lineSequence : Option UInt32 := none
  /-- The case of that line; lines of several cases may have the same number. -/
  caseSequence : Option UInt32 := none
deriving DecidableEq

namespace AdjustmentEntry

/-- Whether the entry is for sentences passed on a date. -/
def coversDate (e : AdjustmentEntry) (sentencedAt : Date) : Bool :=
  e.appliesFrom.all (· ≤ sentencedAt) && e.appliesTo.all (sentencedAt ≤ ·)

/-- Whether the entry names no line, or the line of one of these cases and lines. -/
def coversSequences (e : AdjustmentEntry) (sequences : List (UInt32 × UInt32)) : Bool :=
  e.lineSequence.all fun line =>
    sequences.any fun (case_, sentenceLine) =>
      sentenceLine = line && e.caseSequence.all (· = case_)

/-- Whether the entry applies to a sentence passed on a date, with these cases and lines. -/
def covers (e : AdjustmentEntry) (sentencedAt : Date) (sequences : List (UInt32 × UInt32)) : Bool :=
  e.coversDate sentencedAt && e.coversSequences sequences

end AdjustmentEntry

/-- The adjustments of a booking. A type without entries may be listed. -/
@[ext]
structure Adjustments where
  byType : Table AdjustmentType (List AdjustmentEntry)
deriving DecidableEq

namespace Adjustments

/-- No adjustments. -/
def empty : Adjustments := ⟨Table.empty⟩

instance : Inhabited Adjustments := ⟨empty⟩

/-- The entries of a type, in the order in which they were added. -/
def entries (a : Adjustments) (type : AdjustmentType) : List AdjustmentEntry :=
  (a.byType.get? type).getD []

/-- Adds an entry after those of its type. -/
def add (a : Adjustments) (type : AdjustmentType) (e : AdjustmentEntry) : Adjustments :=
  ⟨a.byType.insert type (a.entries type ++ [e])⟩

/-- Whether there are no entries of any type. -/
def isEmpty (a : Adjustments) : Bool :=
  a.byType.values.all List.isEmpty

/-- The days of all entries of a type that apply to a sentence. -/
def totalDays (a : Adjustments) (type : AdjustmentType) (sentencedAt : Date)
    (sequences : List (UInt32 × UInt32)) : Int :=
  totalOf (·.days.toNat) ((a.entries type).filter (·.covers sentencedAt sequences))

end Adjustments

/-- The days by which the dates of one sentence are adjusted, numbers of 64 bits. -/
structure AppliedAdjustments where
  deductedDays : Int := 0
  sentenceExtensionDays : Int := 0
  /-- Days awarded less those restored, never below zero. -/
  releaseExtensionDays : Int := 0
deriving DecidableEq

namespace AppliedAdjustments

/-- The days that move expiry and the windows of eligibility. -/
def custodyDays (a : AppliedAdjustments) : Int :=
  wrap64 (a.sentenceExtensionDays - a.deductedDays)

/-- The days that move the release point. -/
def releaseDays (a : AppliedAdjustments) : Int :=
  wrap64 (a.custodyDays + a.releaseExtensionDays)

theorem fits_custodyDays (a : AppliedAdjustments) : fits64 a.custodyDays = true :=
  fits64_wrap64 _

theorem fits_releaseDays (a : AppliedAdjustments) : fits64 a.releaseDays = true :=
  fits64_wrap64 _

end AppliedAdjustments

/-! ### JSON -/

instance : JsonForm AdjustmentEntry where
  toJson e := .obj <|
    Json.member "number_of_days" e.days
      ++ Json.memberIfSome "applies_from" e.appliesFrom
      ++ Json.memberIfSome "applies_to" e.appliesTo
      ++ Json.memberIfSome "sentence_sequence" e.lineSequence
      ++ Json.memberIfSome "case_sequence" e.caseSequence
  ofJson? j := do
    let members ← j.members?
    some {
      days := ← members.required? "number_of_days"
      appliesFrom := ← members.optional? "applies_from"
      appliesTo := ← members.optional? "applies_to"
      lineSequence := ← members.optional? "sentence_sequence"
      caseSequence := ← members.optional? "case_sequence" }

instance : JsonForm Adjustments where
  toJson a := toJson a.byType
  ofJson? j := (ofJson? j).map Adjustments.mk

instance : JsonForm AppliedAdjustments where
  toJson a := .obj <|
    Json.member "deducted_days" a.deductedDays
      ++ Json.member "sentence_extension_days" a.sentenceExtensionDays
      ++ Json.member "release_extension_days" a.releaseExtensionDays
  ofJson? j := do
    let members ← j.members?
    some {
      deductedDays := ← members.required? "deducted_days"
      sentenceExtensionDays := ← members.required? "sentence_extension_days"
      releaseExtensionDays := ← members.required? "release_extension_days" }

end Custody
