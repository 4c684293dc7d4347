import Custody.Failure
import Custody.Sentence.Basic

/-!
# Assembling chains

Sentences are recorded one by one, each with at most one other that it follows, and a sentence may
be followed by several. Every way from a sentence that follows none to one that is followed by none
is served as a unit of its own: the sentence itself where the way has no other, or else the chain of
the sentences on it.

* **`Single.paths`**: the ways, depth first, those that branch in order of sentencing.
* **`Sentence.assemble`**: the units of a booking.
-/

namespace Custody

open Custody.Calendar

namespace Single

/-- The order in which sentences are served that follow the same one: by date, then case and line.
-/
def servedBefore (a b : Single) : Bool :=
  a.sentencedAt < b.sentencedAt
    || (a.sentencedAt = b.sentencedAt
      && (a.caseSequence < b.caseSequence
        || (a.caseSequence = b.caseSequence && a.lineSequence ≤ b.lineSequence)))

/-- The sentences of a pool that follow a sentence, in the order they are served. -/
def successors (pool : List Single) (s : Single) : List Single :=
  (pool.filter (·.consecutiveTo = some s.identifier)).mergeSort servedBefore

/-- A pool without the sentence of an identifier. -/
def without (pool : List Single) (i : Identifier) : List Single :=
  pool.filter (·.identifier ≠ i)

theorem length_without_lt {pool : List Single} {s : Single} (h : s ∈ pool) :
    (without pool s.identifier).length < pool.length := by
  refine List.length_filter_lt_length_iff_exists.mpr ⟨s, h, ?_⟩
  simp

theorem mem_of_mem_successors {pool : List Single} {s t : Single} (h : t ∈ successors pool s) :
    t ∈ pool := by
  simp only [successors, List.mem_mergeSort, List.mem_filter] at h
  exact h.1

/-- The ways on from a sentence, each behind the way that led to it. No sentence is passed twice:
those that may still come are kept in a pool. -/
def pathsFrom (pool : List Single) (before : List Single) (s : Single) : List (List Single) :=
  let path := before ++ [s]
  let next := successors pool s
  if next.isEmpty then [path]
  else next.attach.flatMap fun ⟨t, _⟩ => pathsFrom (without pool t.identifier) path t
termination_by pool.length
decreasing_by exact length_without_lt (mem_of_mem_successors ‹_›)

/-- The ways from every sentence that follows none to those that are followed by none. -/
def paths (singles : List Single) : List (List Single) :=
  (singles.filter (·.consecutiveTo.isNone)).flatMap (pathsFrom singles [])

/-- The first identifier that is given to a second sentence. -/
def repeated? (seen : List Identifier) : List Single → Option Identifier
  | [] => none
  | s :: rest =>
    if s.identifier ∈ seen then some s.identifier
    else repeated? (s.identifier :: seen) rest

/-- The first identifier that a sentence follows and no sentence has. -/
def unknownParent? (singles : List Single) : Option Identifier :=
  (singles.filterMap Single.consecutiveTo).find? fun i => !singles.any (·.identifier = i)

end Single

namespace Sentence

/-- Whether a chain is one that is covered: it has components, none of them extended, and either all
or none of them recalled. A single sentence always is. -/
def checkCovered (s : Sentence) : Answered Unit :=
  match s with
  | single _ => .ok ()
  | chain parts _ =>
    if parts.isEmpty then .error (.breach .emptyChain)
    else if parts.any (·.single?.any (·.term.isExtended)) then
      .error (.unsupported .extendedInChain)
    else if parts.any (·.recallType.isRecall) && !parts.all (·.recallType.isRecall) then
      .error (.unsupported .mixedRecalls)
    else .ok ()

/-- The unit of a way. -/
def ofPath : List Single → Sentence
  | [s] => single s
  | path => chain (path.map single) none

/-- The unit of a way, if it is covered. -/
def coveredPath (path : List Single) : Answered Sentence := do
  checkCovered (ofPath path)
  return ofPath path

/-- The units of a booking: the chains that were recorded as such, then those of the links. -/
def assemble (sentences : List Sentence) : Answered (List Sentence) := do
  let chains := sentences.filter isChain
  let singles := sentences.filterMap single?
  chains.forM checkCovered
  if let some i := Single.repeated? [] singles then throw (.breach (.duplicateIdentifier i))
  if let some i := Single.unknownParent? singles then throw (.breach (.unknownParent i))
  let paths := Single.paths singles
  let units ← paths.mapM coveredPath
  -- A sentence that no way leads to is one of a cycle, or leads on from one.
  if singles.any fun s => !paths.any (·.any (·.identifier = s.identifier)) then
    throw (.breach .cyclicLinks)
  return chains ++ units

end Sentence

end Custody
