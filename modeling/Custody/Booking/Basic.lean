import Custody.Booking.Adjustments
import Custody.Json.Reader
import Custody.Sentence.Form

/-!
# Bookings

A `Booking` is what is known of a person's time in custody: who the person is, the sentences as they
were recorded, the adjustments and the return to custody after a recall. `Inputs` are what the
caller decides.

* **`Offender.ageOn?`**: whole years, none of them before birth.
* **`Booking.ofText?`**: a booking is read from its JSON text.
-/

namespace Custody

open Custody.Calendar

/-- The person in custody. -/
structure Offender where
  reference : String
  dateOfBirth : Option Date
  isActiveSexOffender : Bool
deriving DecidableEq

namespace Offender

/-- The age in whole years on a date, where the date of birth is known. A birthday on 29 February
is reached on 1 March of a common year. -/
def ageOn? (o : Offender) (date : Date) : Option Int :=
  o.dateOfBirth.map fun birth =>
    if date < birth then 0
    else
      let years := date.year - birth.year
      let beforeBirthday := date.monthOfYear < birth.monthOfYear
        ∨ (date.monthOfYear = birth.monthOfYear ∧ date.dayOfMonth < birth.dayOfMonth)
      if beforeBirthday then years - 1 else years

end Offender

/-- A time in custody. -/
structure Booking where
  bookingId : Int64
  offender : Offender
  sentences : List Sentence
  adjustments : Adjustments
  returnToCustody : Option Date

/-- The list that a caller's answer is about. -/
inductive AnswerType where
  /-- Schedule 15 with life as its maximum. -/
  | original
  | fourToUnderSeven
  | section250
  | updated
deriving DecidableEq

instance : Enumeration AnswerType where
  all := [.original, .fourToUnderSeven, .section250, .updated]
  name
    | .original => "original"
    | .fourToUnderSeven => "four_to_under_seven"
    | .section250 => "section250"
    | .updated => "updated"
  mem_all k := by cases k <;> decide
  nodup_all := by decide
  name_injective {a b} := by cases a <;> cases b <;> simp

/-- A caller's answer on whether the offence of a sentence is on a list. -/
structure Answer where
  lineSequence : UInt32
  offenceCode : String
  type : AnswerType
  choice : Bool
deriving DecidableEq

namespace Answer

/-- The marks of an offence that is on the list asked about if the answer is yes, and on no other.
-/
def marks (a : Answer) : OffenceMarks :=
  match a.type with
  | .original => { schedule15Life := a.choice }
  | .fourToUnderSeven => { pcscSds := a.choice }
  | .section250 => { pcscSection250 := a.choice }
  | .updated => { pcscSdsPlus := a.choice }

end Answer

/-- What the caller decides. -/
structure Inputs where
  /-- Whether the marks of the offences decide on SDS+, and not the answers or the record. -/
  useOffenceMarks : Bool := false
  /-- Whether the early removal scheme is asked for. -/
  calculateErsed : Bool := false
  answers : List Answer := []
deriving DecidableEq

namespace Inputs

/-- The first answer on a sentence. -/
def answerFor? (i : Inputs) (s : Single) : Option Answer :=
  i.answers.find? fun a => a.lineSequence = s.lineSequence && a.offenceCode = s.offence.code

end Inputs

/-! ### JSON -/

instance : JsonForm Offender where
  toJson o := .obj <|
    Json.member "reference" o.reference
      ++ Json.memberIfSome "date_of_birth" o.dateOfBirth
      ++ Json.member "is_active_sex_offender" o.isActiveSexOffender
  ofJson? j := do
    let members ← j.members?
    some {
      reference := ← members.required? "reference"
      dateOfBirth := ← members.optional? "date_of_birth"
      isActiveSexOffender := ← members.withDefault? "is_active_sex_offender" false }

instance : JsonForm Answer where
  toJson a := .obj <|
    Json.member "sentence_sequence" a.lineSequence
      ++ Json.member "offence_code" a.offenceCode
      ++ Json.member "user_input_type" a.type
      ++ Json.member "user_choice" a.choice
  ofJson? j := do
    let members ← j.members?
    some {
      lineSequence := ← members.required? "sentence_sequence"
      offenceCode := ← members.required? "offence_code"
      type := ← members.required? "user_input_type"
      choice := ← members.required? "user_choice" }

instance : JsonForm Inputs where
  toJson i := .obj <|
    Json.member "use_offence_indicators" i.useOffenceMarks
      ++ Json.member "calculate_ersed" i.calculateErsed
      ++ Json.member "sentence_calculation_user_inputs" i.answers
  ofJson? j := do
    let members ← j.members?
    some {
      useOffenceMarks := ← members.withDefault? "use_offence_indicators" false
      calculateErsed := ← members.withDefault? "calculate_ersed" false
      answers := ← members.withDefault? "sentence_calculation_user_inputs" [] }

namespace Booking

/-- The deepest that a sentence may be nested in itself to be read. -/
def maxSentenceDepth : Nat := 125

/-- The sentences of a JSON value, none of them nested too deep. -/
def sentencesOfJson? (j : Json) : Option (List Sentence) :=
  match j with
  | .arr items =>
    if items.all (·.depth ≤ maxSentenceDepth) then items.mapM ofJson? else none
  | _ => none

instance : JsonForm Booking where
  toJson b := .obj <|
    Json.member "booking_id" b.bookingId
      ++ Json.member "offender" b.offender
      ++ Json.member "sentences" b.sentences
      ++ Json.member "adjustments" b.adjustments
      ++ Json.memberIfSome "return_to_custody_date" b.returnToCustody
  ofJson? j := do
    let members ← j.members?
    some {
      bookingId := ← members.required? "booking_id"
      offender := ← members.required? "offender"
      sentences := ← sentencesOfJson? (← members.lookup "sentences")
      adjustments := ← members.withDefault? "adjustments" Adjustments.empty
      returnToCustody := ← members.optional? "return_to_custody_date" }

/-- The booking of a JSON text. -/
def ofText? (s : String) : Option Booking := do
  ofJson? (← Json.ofText? s)

end Booking

end Custody
