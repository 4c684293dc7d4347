import Custody.Sentence.Basic

/-!
# Sentences as JSON

A sentence is an object whose `type` names its kind. The details of a single sentence and its term
are members of the same object. Tracks and links are left out when absent.
-/

namespace Custody

namespace Term

/-- The name of the kind of sentence that a term makes. -/
def kindName : Term → String
  | .standard _ => "standard"
  | .extended _ _ => "extended_determinate"
  | .botus _ => "botus"

/-- The members that a term contributes. -/
def toMembers : Term → Json.Members
  | .standard t =>
    Json.member "duration" t.duration
      ++ Json.member "is_sds_plus" t.isSdsPlus
      ++ Json.member "is_section_250" t.isSection250
      ++ Json.member "early_release_exclusion" t.exclusion
  | .extended custodial licence =>
    Json.member "custodial_duration" custodial ++ Json.member "extension_duration" licence
  | .botus duration => Json.member "duration" duration

/-- The term of a kind of sentence. -/
def ofMembers? (kind : String) (members : Json.Members) : Option Term :=
  match kind with
  | "standard" => do
    some <| .standard {
      duration := ← members.required? "duration"
      isSdsPlus := ← members.withDefault? "is_sds_plus" false
      isSection250 := ← members.withDefault? "is_section_250" false
      exclusion := ← members.withDefault? "early_release_exclusion" .notExcluded }
  | "extended_determinate" => do
    some <| .extended (← members.required? "custodial_duration")
      (← members.required? "extension_duration")
  | "botus" => do some <| .botus (← members.required? "duration")
  | _ => none

end Term

namespace Single

/-- The members of a single sentence. -/
def toMembers (s : Single) : Json.Members :=
  Json.member "type" s.term.kindName
    ++ Json.member "identifier" s.identifier
    ++ Json.member "case_sequence" s.caseSequence
    ++ Json.member "line_sequence" s.lineSequence
    ++ Json.member "sentenced_at" s.sentencedAt
    ++ Json.member "offence" s.offence
    ++ Json.member "recall_type" s.recallType
    ++ Json.memberIfSome "consecutive_to" s.consecutiveTo
    ++ Json.memberIfSome "identification_track" s.track
    ++ s.term.toMembers

/-- The single sentence of the members of an object. -/
def ofMembers? (kind : String) (members : Json.Members) : Option Single := do
  some {
    identifier := ← members.required? "identifier"
    caseSequence := ← members.required? "case_sequence"
    lineSequence := ← members.required? "line_sequence"
    sentencedAt := ← members.required? "sentenced_at"
    offence := ← members.required? "offence"
    recallType := ← members.withDefault? "recall_type" .notRecalled
    consecutiveTo := ← members.optional? "consecutive_to"
    track := ← members.optional? "identification_track"
    term := ← Term.ofMembers? kind members }

end Single

namespace Sentence

/-- The `type` of a chain. -/
def chainKind : String := "consecutive"

mutual

/-- The JSON form of a sentence. -/
def write : Sentence → Json
  | single s => .obj s.toMembers
  | chain parts track => .obj <|
    Json.member "type" chainKind
      ++ [("components", .arr (writeAll parts))]
      ++ Json.memberIfSome "identification_track" track

/-- The JSON forms of a list of sentences. -/
def writeAll : List Sentence → List Json
  | [] => []
  | s :: rest => s.write :: writeAll rest

end

mutual

/-- The sentence of a JSON value. -/
def read? : Json → Option Sentence
  | .obj members => do
    let kind : String ← Json.Members.required? members "type"
    if kind = chainKind then
      some (chain (← readComponents? members)
        (← Json.Members.optional? members "identification_track"))
    else (Single.ofMembers? kind members).map single
  | _ => none

/-- The sentences of the member that lists the components. -/
def readComponents? : List (String × Json) → Option (List Sentence)
  | [] => none
  | (name, .arr items) :: rest =>
    if name = "components" then readAll? items else readComponents? rest
  | (name, _) :: rest => if name = "components" then none else readComponents? rest

/-- The sentences of a list of JSON values. -/
def readAll? : List Json → Option (List Sentence)
  | [] => some []
  | j :: rest => do some ((← read? j) :: (← readAll? rest))

end

instance : JsonForm Sentence := ⟨write, read?⟩

end Sentence

end Custody
