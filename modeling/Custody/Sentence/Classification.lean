import Custody.Booking.Basic
import Custody.Config.Basic
import Custody.Reckoning

/-!
# Classification

Every component of a sentence is put on the track that its kind, its offence and its length call
for, and the sentence as a whole on the weightiest of them. A track that is there before is not
looked at.

* **`Single.isSdsPlus`**, **`Single.isEarlyReleaseEligible`** decide on standard determinate
  sentences.
* **`Sentence.classify`** puts a sentence and its components on their tracks.
-/

namespace Custody

open Custody.Calendar

/-- What is assumed of the sentences that the early release scheme could apply to. -/
inductive Assumption where
  /-- The scheme applies to those that were passed once it had started. -/
  | standard
  /-- The scheme applies to all of them. -/
  | early
deriving DecidableEq

instance : Enumeration Assumption where
  all := [.standard, .early]
  name
    | .standard => "standard"
    | .early => "early"
  mem_all k := by cases k <;> decide
  nodup_all := by decide
  name_injective {a b} := by cases a <;> cases b <;> simp

namespace Duration

/-- Whether a duration from an anchor is at least so many years. -/
def atLeastYears (d : Duration) (anchor : Date) (years : UInt32) : Answered Bool := do
  let reached ← d.endDate anchor
  let threshold ← (of .years years).endDate anchor
  return threshold ≤ reached

end Duration

namespace Single

/-- Whether the lists that an offence is on make its sentence an SDS+ one. -/
def isSdsPlusByMarks (config : Config) (marks : OffenceMarks) (s : Single) (t : StandardTerm) :
    Answered Bool := do
  let terms := config.classification
  let sevenOrMore ← t.duration.atLeastYears s.sentencedAt terms.sdsPlusMinimumYears
  let fourOrMore ← t.duration.atLeastYears s.sentencedAt terms.listCMinimumYears
  let tooLongForC ← t.duration.atLeastYears s.sentencedAt terms.listCMaximumYears
  let sinceSdsPlus := decide (config.commencements.sdsPlus ≤ s.sentencedAt)
  let sincePcsc := decide (config.commencements.pcsc ≤ s.sentencedAt)
  let listA := sinceSdsPlus && !sincePcsc && sevenOrMore && marks.schedule15Life
  let listB := sincePcsc && sevenOrMore && marks.pcscSdsPlus
  let listC := sincePcsc && fourOrMore && !tooLongForC && marks.pcscSds
  let listD := t.isSection250 && sincePcsc && sevenOrMore && marks.pcscSection250
  return listA || listB || listC || listD

/-- Whether a standard determinate sentence is an SDS+ one: by the marks of its offence if the
caller says so, or else by the caller's answer on it, or else as recorded. -/
def isSdsPlus (config : Config) (inputs : Inputs) (s : Single) (t : StandardTerm) : Answered Bool :=
  if inputs.useOffenceMarks then isSdsPlusByMarks config s.offence.marks s t
  else match inputs.answerFor? s with
    | some answer => isSdsPlusByMarks config answer.marks s t
    | none => .ok t.isSdsPlus

/-- Whether the early release scheme could apply to a standard determinate sentence. -/
def isEarlyReleaseEligible (config : Config) (s : Single) (t : StandardTerm) : Answered Bool :=
  if s.recallType.isRecall then .ok false
  else match t.exclusion with
    | .notExcluded => .ok true
    | .violent => do
      return !(← t.duration.atLeastYears s.sentencedAt config.earlyRelease.violentExclusionYears)
    | _ => .ok false

/-- The track of a standard determinate sentence. -/
def standardTrack (config : Config) (inputs : Inputs) (assumption : Assumption) (s : Single)
    (t : StandardTerm) : Answered Track := do
  if ← isSdsPlus config inputs s t then return .sdsPlus
  let eligible ← isEarlyReleaseEligible config s t
  let applies := match assumption with
    | .early => true
    | .standard => decide (config.earlyRelease.trancheOneCommencement ≤ s.sentencedAt)
  return if eligible && applies then .sdsEarly else .sdsStandard

/-- The track of an extended sentence. -/
def extendedTrack (config : Config) (s : Single) (custodial : Duration) : Answered Track := do
  let isLong ←
    custodial.atLeastYears s.sentencedAt config.classification.edsAutomaticMaximumYears
  let isAutomatic := decide (s.sentencedAt < config.commencements.edsDiscretionary) && !isLong
    && !s.offence.marks.schedule15Life
  return if isAutomatic then .edsAutomatic else .edsDiscretionary

/-- The track of a single sentence. -/
def trackFor (config : Config) (inputs : Inputs) (assumption : Assumption) (s : Single) :
    Answered Track := do
  if s.offence.committedAt < config.commencements.cja2003 then
    throw (.unsupported (.oldOffence s.offence.code s.offence.committedAt
      config.commencements.cja2003))
  if s.recallType.isRecall then return .recall
  match s.term with
  | .botus _ => return .botus
  | .extended custodial _ => s.extendedTrack config custodial
  | .standard t => s.standardTrack config inputs assumption t

end Single

namespace Sentence

/-- Tracks by weight, the weightiest first. -/
def trackPrecedence : List Track :=
  [.recall, .sdsPlus, .sdsStandard, .edsDiscretionary, .edsAutomatic, .sdsEarly, .botus]

/-- Puts components on their tracks, in order, up to the first that has none, if there is such. -/
def classifyComponents (config : Config) (inputs : Inputs) (assumption : Assumption) :
    List Sentence → List Sentence × Option Failure
  | [] => ([], none)
  | component :: rest =>
    let track := do
      (← orFail component.single? (.breach .nestedChain)).trackFor config inputs assumption
    match track with
    | .error failure => (component :: rest, some failure)
    | .ok track =>
      let (rest, failure) := classifyComponents config inputs assumption rest
      (component.onTrack track :: rest, failure)

/-- The weightiest of the tracks of the components. -/
def weightiestTrack? (s : Sentence) : Option Track :=
  trackPrecedence.find? fun track => s.componentTracks.contains track

/-- The sentence with its components replaced. -/
def withComponents (s : Sentence) (components : List Sentence) : Sentence :=
  match s, components with
  | single _, [component] => component
  | single s, _ => single s
  | chain _ track, components => chain components track

/-- The sentence with as many of its components on their tracks as have one, and why it is not
classified, if it is not. -/
def classifyAsFar (config : Config) (inputs : Inputs) (assumption : Assumption) (s : Sentence) :
    Sentence × Option Failure :=
  let (components, failure) := classifyComponents config inputs assumption s.components
  let s := s.withComponents components
  match failure with
  | some failure => (s, some failure)
  | none =>
    match s.weightiestTrack? with
    | some track => (s.onTrack track, none)
    | none => (s, some (.breach .noClassifiedComponents))

/-- The sentence on its track, with every component on its own. -/
def classify (config : Config) (inputs : Inputs) (assumption : Assumption) (s : Sentence) :
    Answered Sentence :=
  match classifyAsFar config inputs assumption s with
  | (s, none) => .ok s
  | (_, some failure) => .error failure

end Sentence

end Custody
