import Custody.Booking.Basic
import Custody.Config.EnglandAndWales
import Custody.Outcome.Basic
import Custody.Proofs.Json.Reader
import Custody.Proofs.Sentence.Form
import Custody.Unit.Calculation

/-!
# Bookings and results read back from their text

What is written of a booking, of the calculation of a unit and of an outcome is what is read. Only
the nesting of chains is bounded by the reader: a booking is read back where the form of no sentence
is deeper than `Booking.maxSentenceDepth`, as it never is when chains are not nested.

* **`Booking.ofJson?_toJson`**: a booking is read back if none of its sentences is nested too deep.
* **`text_round_trip`**: bookings, calculations of units and outcomes are read back from text.
-/

namespace Custody

open Json

/-! ### Records -/

instance : LawfulJsonForm Offender where
  ofJson?_toJson o := by
    simp only [toJson, ofJson?]
    simp [List.lookup_append]
  toJson_ne_null _ := nofun
  exact_toJson o := by simp [toJson, Exact]

/-- An entry is read member by member. Of members that are known, a proof by computation would go
through the range of a count one by one. -/
theorem AdjustmentEntry.ofJson?_obj (members : Members) :
    (ofJson? (obj members) : Option AdjustmentEntry) = (do
      some {
        days := ← members.required? "number_of_days"
        appliesFrom := ← members.optional? "applies_from"
        appliesTo := ← members.optional? "applies_to"
        lineSequence := ← members.optional? "sentence_sequence"
        caseSequence := ← members.optional? "case_sequence" }) := rfl

instance : LawfulJsonForm AdjustmentEntry where
  ofJson?_toJson e := by
    simp only [toJson]
    rw [AdjustmentEntry.ofJson?_obj]
    simp [List.lookup_append]
  toJson_ne_null _ := nofun
  exact_toJson e := by simp [toJson, Exact]

instance : LawfulJsonForm Adjustments where
  ofJson?_toJson a := by
    show (ofJson? (toJson a.byType)).map Adjustments.mk = some a
    rw [ofJson?_toJson, Option.map_some]
  toJson_ne_null a := toJson_ne_null a.byType
  exact_toJson a := exact_toJson a.byType

instance : LawfulJsonForm AppliedAdjustments where
  ofJson?_toJson a := by
    simp only [toJson, ofJson?]
    simp [List.lookup_append]
  toJson_ne_null _ := nofun
  exact_toJson a := by simp [toJson, Exact]

instance : LawfulJsonForm Breakdown where
  ofJson?_toJson b := by
    simp only [toJson, ofJson?]
    cases hempty : b.ruleAdjustments.isEmpty with
    | true =>
      have htable := Table.eq_empty_of_isEmpty hempty
      simp [List.lookup_append, ← htable]
    | false => simp [List.lookup_append]
  toJson_ne_null _ := nofun
  exact_toJson b := by
    simp only [toJson, Exact]
    split <;> simp

instance : LawfulJsonForm UnitCalculation where
  ofJson?_toJson c := by
    simp only [toJson, ofJson?]
    simp [List.lookup_append]
  toJson_ne_null _ := nofun
  exact_toJson c := by
    have hparole : ExactMembers (member "number_of_days_to_parole_eligibility" c.paroleDays) := by
      cases c.paroleDays <;> exact ⟨trivial, trivial⟩
    simp [toJson, Exact, hparole]

instance : LawfulJsonForm Outcome where
  ofJson?_toJson o := by
    simp only [toJson, ofJson?]
    simp [List.lookup_append]
  toJson_ne_null _ := nofun
  exact_toJson o := by simp [toJson, Exact]

/-! ### Bookings -/

namespace Booking

variable {b : Booking}

/-- A booking is read member by member. -/
theorem ofJson?_obj (members : Members) :
    (ofJson? (obj members) : Option Booking) = (do
      some {
        bookingId := ← members.required? "booking_id"
        offender := ← members.required? "offender"
        sentences := ← sentencesOfJson? (← members.lookup "sentences")
        adjustments := ← members.withDefault? "adjustments" Adjustments.empty
        returnToCustody := ← members.optional? "return_to_custody_date" }) := rfl

/-- Sentences are read back if none of them is nested too deep. -/
theorem sentencesOfJson?_toJson {sentences : List Sentence}
    (h : ∀ s ∈ sentences, (toJson s).depth ≤ maxSentenceDepth) :
    sentencesOfJson? (toJson sentences) = some sentences := by
  have hdepth : (sentences.map toJson).all (·.depth ≤ maxSentenceDepth) := by
    simpa using h
  show (if (sentences.map toJson).all (·.depth ≤ maxSentenceDepth)
    then (sentences.map toJson).mapM ofJson? else none) = some sentences
  rw [if_pos hdepth]
  exact mapM_map_eq_some fun s _ => ofJson?_toJson s

/-- **A booking is read back if none of its sentences is nested too deep.** -/
theorem ofJson?_toJson (h : ∀ s ∈ b.sentences, (toJson s).depth ≤ maxSentenceDepth) :
    ofJson? (toJson b) = some b := by
  have hsentences := sentencesOfJson?_toJson h
  simp only [toJson]
  rw [ofJson?_obj]
  simp [List.lookup_append, hsentences]

theorem exact_toJson (b : Booking) : (toJson b).Exact := by
  simp [toJson, Exact]

/-- A booking whose chains are not nested is read back from its text. -/
theorem ofText?_text (hflat : ∀ s ∈ b.sentences, ∀ part ∈ s.components, part.isChain = false) :
    ofText? (toJson b).text = some b := by
  have hdepth : ∀ s ∈ b.sentences, (toJson s).depth ≤ maxSentenceDepth := fun s hs =>
    Nat.le_trans (Sentence.depth_write_le (hflat s hs)) (by decide)
  rw [ofText?, Json.ofText?_text b.exact_toJson]
  exact ofJson?_toJson hdepth

end Booking

/-! ### Texts -/

/-- A value with a lawful form is read back from the text of its form. -/
theorem LawfulJsonForm.ofText?_text {α : Type} [JsonForm α] [LawfulJsonForm α] (a : α) :
    (Json.ofText? (toJson a).text).bind ofJson? = some a := by
  rw [Json.ofText?_text (exact_toJson a), Option.bind_some, ofJson?_toJson]

/-- **What is written as text is read back**: a booking whose chains are not nested, the calculation
of a unit, and an outcome. -/
theorem text_round_trip :
    (∀ b : Booking, (∀ s ∈ b.sentences, ∀ part ∈ s.components, part.isChain = false) →
        Booking.ofText? (toJson b).text = some b)
      ∧ (∀ c : UnitCalculation, (Json.ofText? (toJson c).text).bind ofJson? = some c)
      ∧ ∀ o : Outcome, (Json.ofText? (toJson o).text).bind ofJson? = some o := by
  refine ⟨?_, ?_, ?_⟩
  · intro b hflat
    exact Booking.ofText?_text hflat
  · intro c
    exact LawfulJsonForm.ofText?_text c
  · intro o
    exact LawfulJsonForm.ofText?_text o

/-- A committal that a standard sentence follows, with what is rarely recorded: a date of birth
before the first year, a return in a year of five digits, weeks that are counted as none, and a type
of adjustment without entries. -/
def Booking.rarelyRecorded : Booking where
  bookingId := -1
  offender := {
    reference := "A\"1\\\n"
    dateOfBirth := some (EnglandAndWales.on (-1) 2 28)
    isActiveSexOffender := true }
  sentences :=
    let offence := { committedAt := EnglandAndWales.on 0 2 29, code := "", marks := {} }
    let committal := {
      identifier := ⟨.replicate 32 ⟨11, by decide⟩⟩, caseSequence := 0, lineSequence := 4294967295
      sentencedAt := EnglandAndWales.on 2019 3 5, offence, recallType := .fixedTerm14
      consecutiveTo := none, track := none, term := .botus ⟨Table.empty.insert .weeks 0⟩ }
    let standard := { committal with
      identifier := ⟨.replicate 32 ⟨12, by decide⟩⟩
      consecutiveTo := some ⟨.replicate 32 ⟨11, by decide⟩⟩
      term := .standard {
        duration := .of .years 6, isSdsPlus := true, isSection250 := false
        exclusion := .violent } }
    [.chain [.single committal, .single standard] (some .recall), .single standard]
  adjustments := ⟨Table.empty.insert .remand []⟩
  returnToCustody := some (EnglandAndWales.on 12020 12 31)

theorem text_round_trip_rarelyRecorded :
    (∃ s ∈ Booking.rarelyRecorded.sentences, s.isChain = true)
      ∧ (∀ s ∈ Booking.rarelyRecorded.sentences, ∀ part ∈ s.components, part.isChain = false)
      ∧ Booking.ofText? (toJson Booking.rarelyRecorded).text = some .rarelyRecorded := by
  have hchain : ∃ s ∈ Booking.rarelyRecorded.sentences, s.isChain = true := by decide
  have hflat : ∀ s ∈ Booking.rarelyRecorded.sentences, ∀ part ∈ s.components,
      part.isChain = false := by decide
  exact ⟨hchain, hflat, text_round_trip.1 .rarelyRecorded hflat⟩

end Custody
