import Custody.Config.File
import Custody.Decimal.Text
import Custody.Duration
import Custody.Identifier
import Custody.Release.Track

/-!
# Failures

Why there is no answer. A date that the law does not give is no failure: it is left out. A failure
is a configuration that cannot be used, a booking that is not covered, or a calculation that has
left the ground it stands on. Each has one constructor for its cause, and `Failure.message` words
it.
-/

namespace Custody

open Custody.Calendar

/-- A fault in the settings of a configuration. -/
inductive ConfigFault where
  /-- A fraction that is not above zero and at most one. -/
  | notAFraction (setting : String) (value : Decimal)
  | noTracks (scheme : String)
  | negativePeriod (scheme : String)
  | emptyYearRange (scheme : String) (minimum maximum : UInt32)
  | noFractions
  | tranchesOutOfOrder (one two : Date)
  /-- No fraction of the early removal scheme is in force yet. -/
  | noFractionOn (date : Date)
deriving DecidableEq

/-- What makes a booking one that is not covered. -/
inductive Unsupported where
  | noSentences
  | extendedInChain
  | mixedRecalls
  | oldOffence (code : String) (committedAt limit : Date)
  | returnedBeforeSentence (returned sentencedAt : Date)
  | fixedTermWithoutReturn
deriving DecidableEq

/-- What a calculation relies on and did not find. -/
inductive Breach where
  | durationOverflow (duration : Duration) (anchor : Date)
  | daysOverflow (days : Int) (date : Date)
  | tusedOverflow (release : Date)
  | countOverflow (days : Decimal)
  | noWorkingDay (date : Date)
  | emptyChain
  | nestedChain
  | noSentencingDate
  | noIdentifier
  | duplicateIdentifier (identifier : Identifier)
  | unknownParent (identifier : Identifier)
  | cyclicLinks
  | noClassifiedComponents
  | unitNotClassified
  | componentNotClassified
  | noCalculations
  | noExpiry
  | noUnadjustedExpiry
deriving DecidableEq

/-- Why there is no answer. -/
inductive Failure where
  | configNotFound (path : String)
  | configUnreadable (path : String)
  | invalidConfig (fault : ConfigFault)
  | multiplierMissing (track : Track)
  | bookingUnreadable
  | unsupported (cause : Unsupported)
  | breach (cause : Breach)
deriving DecidableEq

namespace ConfigFault

/-- The wording of a fault. -/
def message : ConfigFault → String
  | notAFraction setting value => s!"{setting} must be in (0, 1], got {value}"
  | noTracks scheme => s!"{scheme} has no applicable tracks"
  | negativePeriod scheme => s!"{scheme} minimum periods must not be negative"
  | emptyYearRange scheme minimum maximum =>
    s!"{scheme} minimum sentence length {minimum} years must be below the maximum {maximum}"
  | noFractions => "ersed has no minimum custodial fractions"
  | tranchesOutOfOrder one two =>
    s!"tranche one commencement {one} must precede tranche two commencement {two}"
  | noFractionOn date => s!"no ERSED minimum custodial fraction in force on {date}"

end ConfigFault

namespace Unsupported

/-- The wording of what is not covered. -/
def message : Unsupported → String
  | noSentences => "booking has no sentences"
  | extendedInChain => "extended determinate sentences in a consecutive chain"
  | mixedRecalls => "consecutive chain mixes recalled and non-recalled sentences"
  | oldOffence code committedAt limit =>
    s!"offence {code} committed on {committedAt} before {limit}"
  | returnedBeforeSentence returned sentencedAt =>
    s!"return to custody on {returned} is before sentencing on {sentencedAt}"
  | fixedTermWithoutReturn => "fixed-term recall without a return to custody date"

end Unsupported

namespace Breach

/-- The wording of what was not found. -/
def message : Breach → String
  | durationOverflow duration anchor => s!"duration {duration} overflows from {anchor}"
  | daysOverflow days date => s!"adding {days} days to {date} overflows"
  | tusedOverflow release => s!"TUSED overflows from {release}"
  | countOverflow days => s!"{days} days does not fit in a day count"
  | noWorkingDay date => s!"no working day reachable from {date}"
  | emptyChain => "consecutive sentence has no components"
  | nestedChain => "nested consecutive sentence in chain"
  | noSentencingDate => "sentence has no sentencing date"
  | noIdentifier => "sentence has no identifier"
  | duplicateIdentifier identifier => s!"duplicate sentence identifier {identifier}"
  | unknownParent identifier => s!"sentence is consecutive to unknown sentence {identifier}"
  | cyclicLinks => "consecutive sentence links form a cycle"
  | noClassifiedComponents => "sentence has no classified components"
  | unitNotClassified => "sentence calculated before classification"
  | componentNotClassified => "chain component calculated before classification"
  | noCalculations => "no sentence calculations to extract"
  | noExpiry => "no unit has an expiry date"
  | noUnadjustedExpiry => "no unit has an unadjusted expiry date"

end Breach

namespace Failure

/-- The wording of a failure. -/
def message : Failure → String
  | configNotFound path => s!"Configuration file not found: {path}"
  | configUnreadable path => s!"Failed to parse configuration file '{path}'"
  | invalidConfig fault => "Invalid configuration: " ++ fault.message
  | multiplierMissing track => s!"No release point multiplier configured for track '{track}'"
  | bookingUnreadable => "Failed to parse booking"
  | unsupported cause => "Calculation not supported: " ++ cause.message
  | breach cause => "Invariant violation: " ++ cause.message

end Failure

/-- An answer, or why there is none. -/
abbrev Answered (α : Type) := Except Failure α

/-- The value of an option, or a failure when there is none. -/
def orFail {α : Type} (found : Option α) (failure : Failure) : Answered α :=
  match found with
  | some a => .ok a
  | none => .error failure

end Custody
