import Custody.Proofs.Answered
import Custody.Sentence.Aggregate

/-!
# What does not depend on tracks

A track is put on a sentence after everything else about it is known. `Sentence.untracked` takes a
sentence and all its components off their tracks. What is asked of a sentence besides its tracks is
the same before and after, so two sentences that differ in tracks alone agree on all of it.

* **`sentencedAt?_untracked`**, **`sequences_untracked`**, **`offences_untracked`**: the questions
  that tracks do not enter.
* **`aggregate_untracked`**: a sentence is laid out along the calendar in the same way.
-/

namespace Custody

open Custody.Calendar

/-- The sentence without its track. -/
def Single.untracked (s : Single) : Single := { s with track := none }

def Part.untracked (p : Part) : Part := { p with track := none }

def Aggregate.untracked (a : Aggregate) : Aggregate :=
  { a with parts := a.parts.map Part.untracked }

namespace Sentence

mutual

/-- The sentence and all its components without their tracks. -/
def untracked : Sentence → Sentence
  | single s => single s.untracked
  | chain parts _ => chain (untrackedList parts) none

def untrackedList : List Sentence → List Sentence
  | [] => []
  | s :: rest => s.untracked :: untrackedList rest

end

theorem untrackedList_eq_map (parts : List Sentence) :
    untrackedList parts = parts.map untracked := by
  induction parts with
  | nil => rfl
  | cons s rest ih => rw [untrackedList, ih, List.map_cons]

/-! ## Components -/

theorem components_untracked (s : Sentence) :
    s.untracked.components = s.components.map untracked := by
  cases s with
  | single s => rfl
  | chain parts track => exact untrackedList_eq_map parts

theorem single?_untracked (s : Sentence) :
    s.untracked.single? = s.single?.map Single.untracked := by
  cases s <;> rfl

theorem singles_untracked (s : Sentence) :
    s.untracked.singles = s.singles.map Single.untracked := by
  rw [singles, singles, components_untracked, List.filterMap_map, List.map_filterMap]
  exact List.filterMap_congr fun c _ => single?_untracked c

theorem first?_untracked (s : Sentence) : s.untracked.first? = s.first?.map Single.untracked := by
  rw [first?, first?, components_untracked, List.head?_map]
  cases s.components.head? with
  | none => rfl
  | some c => exact single?_untracked c

theorem identifier?_untracked (s : Sentence) : s.untracked.identifier? = s.identifier? := by
  rw [identifier?, identifier?, first?_untracked, Option.map_map]
  rfl

theorem sequence_untracked (s : Sentence) : s.untracked.sequence = s.sequence := by
  rw [sequence, sequence, first?_untracked, Option.map_map]
  rfl

theorem sequences_untracked (s : Sentence) : s.untracked.sequences = s.sequences := by
  rw [sequences, sequences, singles_untracked, List.map_map]
  rfl

theorem offences_untracked (s : Sentence) : s.untracked.offences = s.offences := by
  rw [offences, offences, singles_untracked, List.map_map]
  rfl

theorem recallType_untracked (s : Sentence) : s.untracked.recallType = s.recallType := by
  rw [recallType, recallType, singles_untracked, List.map_map]
  rfl

theorem recallType_eq_of_untracked_eq {s t : Sentence} (h : s.untracked = t.untracked) :
    s.recallType = t.recallType := by
  rw [← recallType_untracked, h, recallType_untracked]

/-! ## Sentencing dates -/

mutual

theorem sentencedAt?_untracked : ∀ s : Sentence, s.untracked.sentencedAt? = s.sentencedAt?
  | single _ => rfl
  | chain parts _ => earliestOf?_untracked parts

theorem earliestOf?_untracked :
    ∀ parts : List Sentence, earliestOf? (untrackedList parts) = earliestOf? parts
  | [] => rfl
  | s :: rest => by
    rw [untrackedList, earliestOf?, earliestOf?, sentencedAt?_untracked s,
      earliestOf?_untracked rest]

end

/-! ## The layout along the calendar -/

theorem servedFrom_untracked (s : Single) (start : Date) :
    s.untracked.servedFrom start = Part.untracked <$> s.servedFrom start := by
  rw [Single.servedFrom, Single.servedFrom]
  change (s.term.ends start >>= _) = _
  cases s.term.ends start <;> rfl

theorem layOut_untracked (start : Date) (parts : List Sentence) :
    layOut start (parts.map untracked)
      = (fun laid => (laid.1.map Part.untracked, laid.2)) <$> layOut start parts := by
  induction parts generalizing start with
  | nil => rfl
  | cons s rest ih =>
    -- both layouts fail at the same step, or go on from the same place
    rw [List.map_cons, layOut, layOut, single?_untracked]
    cases s.single? with
    | none => rfl
    | some s =>
      change (s.untracked.servedFrom start >>= _) = _ <$> (s.servedFrom start >>= _)
      rw [servedFrom_untracked]
      cases s.servedFrom start with
      | error e => rfl
      | ok p =>
        change (layOut p.finish (rest.map untracked) >>= _) = _ <$> (layOut p.finish rest >>= _)
        rw [ih]
        cases layOut p.finish rest <;> rfl

/-- The layout of a sentence does not depend on tracks. -/
theorem aggregate_untracked (s : Sentence) :
    s.untracked.aggregate = Aggregate.untracked <$> s.aggregate := by
  rw [aggregate, aggregate, components_untracked, sentencedAt?_untracked, List.isEmpty_map]
  cases s.components.isEmpty with
  | true => rfl
  | false =>
    cases s.sentencedAt? with
    | none => rfl
    | some sentencedAt =>
      change (layOut sentencedAt (s.components.map untracked) >>= _)
        = _ <$> (layOut sentencedAt s.components >>= _)
      rw [layOut_untracked]
      cases layOut sentencedAt s.components <;> rfl

/-- Sentences that differ in tracks alone are laid out alike. -/
theorem aggregate_eq_of_untracked_eq {s t : Sentence} {a b : Aggregate}
    (h : s.untracked = t.untracked) (ha : s.aggregate = .ok a) (hb : t.aggregate = .ok b) :
    a.untracked = b.untracked := by
  have hs := s.aggregate_untracked
  have ht := t.aggregate_untracked
  rw [h, ht, ha, hb] at hs
  exact (Except.ok.inj hs).symm

end Sentence

end Custody
