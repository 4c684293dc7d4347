import Custody.Identifier
import Custody.Release.Track
import Custody.Sentence.Offence

/-!
# Sentences

A sentence is a single one, passed for one offence, or a chain of sentences served one after the
other. What is asked of a chain is answered by its components, one level deep: a chain inside a
chain has a sentencing date but no terms of its own.

* **`Sentence.sentencedAt?`**: a chain is sentenced when the first of its components is.
* **`Sentence.recallType`**: a chain is recalled when one of its components is.
-/

namespace Custody

open Custody.Calendar

/-- Whether a sentence has been recalled, and how. -/
inductive RecallType where
  | notRecalled
  /-- Back to licence expiry, unless released again before. -/
  | standard
  | fixedTerm14
  | fixedTerm28
deriving DecidableEq

instance : Enumeration RecallType where
  all := [.notRecalled, .standard, .fixedTerm14, .fixedTerm28]
  name
    | .notRecalled => "none"
    | .standard => "standard_recall"
    | .fixedTerm14 => "fixed_term_recall14"
    | .fixedTerm28 => "fixed_term_recall28"
  mem_all k := by cases k <;> decide
  nodup_all := by decide
  name_injective {a b} := by cases a <;> cases b <;> simp

namespace RecallType

/-- Whether there is a recall. -/
def isRecall (r : RecallType) : Bool :=
  r ≠ .notRecalled

/-- The days to be served on a recall for a fixed term. -/
def fixedTermDays? : RecallType → Option Int
  | .fixedTerm14 => some 14
  | .fixedTerm28 => some 28
  | .notRecalled | .standard => none

end RecallType

/-- What a standard determinate sentence consists of. -/
structure StandardTerm where
  duration : Duration
  /-- Recorded as an SDS+ sentence. -/
  isSdsPlus : Bool
  /-- Passed under section 250, on a person under 18. -/
  isSection250 : Bool
  exclusion : Exclusion
deriving DecidableEq

/-- What a single sentence consists of. -/
inductive Term where
  | standard (term : StandardTerm)
  /-- A custodial term, and a further period on licence. -/
  | extended (custodial licence : Duration)
  /-- A committal for a breach of top-up supervision. -/
  | botus (duration : Duration)
deriving DecidableEq

namespace Term

/-- Whether the sentence is an extended one. -/
def isExtended : Term → Bool
  | .extended _ _ => true
  | _ => false

end Term

/-- A sentence for one offence. -/
structure Single where
  identifier : Identifier
  caseSequence : UInt32
  lineSequence : UInt32
  sentencedAt : Date
  offence : Offence
  recallType : RecallType
  /-- The sentence that this one follows. -/
  consecutiveTo : Option Identifier
  track : Option Track
  term : Term
deriving DecidableEq

namespace Single

/-- Where the sentence is found in the record: case and line. -/
def sequence (s : Single) : UInt32 × UInt32 :=
  (s.caseSequence, s.lineSequence)

end Single

/-- A sentence, single or made up of others. -/
inductive Sentence where
  | single (s : Single)
  /-- Sentences in the order in which they are served, and the track of them as a whole. -/
  | chain (components : List Sentence) (track : Option Track)

namespace Sentence

/-- The sentence, where it is a single one. -/
def single? : Sentence → Option Single
  | single s => some s
  | chain _ _ => none

/-- Whether the sentence is a chain. -/
def isChain : Sentence → Bool
  | single _ => false
  | chain _ _ => true

/-- The sentences that are served one after the other; a single sentence by itself. -/
def components : Sentence → List Sentence
  | single s => [single s]
  | chain parts _ => parts

/-- The components that are single sentences. -/
def singles (s : Sentence) : List Single :=
  s.components.filterMap single?

/-- The first component, where it is a single sentence. -/
def first? (s : Sentence) : Option Single :=
  s.components.head?.bind single?

/-- The identifier of the first component. -/
def identifier? (s : Sentence) : Option Identifier :=
  s.first?.map Single.identifier

/-- The case and line of the first component, or zeros. -/
def sequence (s : Sentence) : UInt32 × UInt32 :=
  (s.first?.map Single.sequence).getD (0, 0)

/-- The cases and lines of the components. -/
def sequences (s : Sentence) : List (UInt32 × UInt32) :=
  s.singles.map Single.sequence

/-- The offences of the components. -/
def offences (s : Sentence) : List Offence :=
  s.singles.map Single.offence

/-- The recall of the first component that has been recalled. -/
def recallType (s : Sentence) : RecallType :=
  ((s.singles.map Single.recallType).find? RecallType.isRecall).getD .notRecalled

/-- The sentence that this one follows. -/
def consecutiveTo? (s : Sentence) : Option Identifier :=
  s.single?.bind Single.consecutiveTo

/-! ### Sentencing dates -/

/-- The earlier of two dates that may be missing. -/
def earlier? : Option Date → Option Date → Option Date
  | some a, some b => some (min a b)
  | some a, none => some a
  | none, b => b

mutual

/-- The date a sentence was passed on; of a chain, the earliest of its components' dates. -/
def sentencedAt? : Sentence → Option Date
  | single s => some s.sentencedAt
  | chain parts _ => earliestOf? parts

/-- The earliest of the dates that sentences were passed on. -/
def earliestOf? : List Sentence → Option Date
  | [] => none
  | s :: rest => earlier? s.sentencedAt? (earliestOf? rest)

end

/-! ### Tracks -/

/-- The track of the sentence as a whole. -/
def track? : Sentence → Option Track
  | single s => s.track
  | chain _ track => track

/-- The sentence put on a track as a whole. -/
def onTrack (s : Sentence) (track : Track) : Sentence :=
  match s with
  | single s => single { s with track := some track }
  | chain parts _ => chain parts (some track)

/-- The tracks of the components that are on one. -/
def componentTracks (s : Sentence) : List Track :=
  s.components.filterMap track?

/-- The sentence with one of its components put on a track. -/
def onComponentTrack (s : Sentence) (index : Nat) (track : Track) : Sentence :=
  match s with
  | single _ => if index = 0 then s.onTrack track else s
  | chain parts whole => chain (parts.modify index (onTrack · track)) whole

end Sentence

end Custody
