import Custody.Proofs.Sentence.Resubmitted
import Custody.Proofs.Sentence.Tracks

/-!
# Units of sentences without their tracks

The links of sentences decide on the units that are assembled from them, and a unit is put on its
tracks by what it is for. Neither looks at a track that is there before: sentences without their
tracks are assembled to the units without theirs, or fail to be for the same reason, and a unit
without its tracks is classified as the unit is.

* **`Single.pathsFrom_untracked`**: the walk along the links.
* **`Sentence.assemble_untracked`**: the units of sentences without their tracks.
* **`Sentence.classify_untracked`**: every track that was there is replaced.
* **`ClassifiedAs.exists_track`**, **`ClassifiedAs.again`**: what classification leaves no track out
  of, and that it changes nothing when it is repeated.
-/

namespace Custody

variable {config : Config} {inputs : Inputs} {assumption : Assumption}

/-- Where a step on what is written over is the step written over, so is a run of steps. -/
theorem Answered.mapM_map_eq_map {α β γ δ : Type} {f : α → β} {g : γ → δ} {x : α → Answered γ}
    {y : β → Answered δ} (h : ∀ a, y (f a) = g <$> x a) (as : List α) :
    (as.map f).mapM y = List.map g <$> as.mapM x := by
  induction as with
  | nil => rfl
  | cons a as ih =>
    rw [List.map_cons, List.mapM_cons, List.mapM_cons, h, ih]
    cases x a with
    | error e => rfl
    | ok c => cases as.mapM x <;> rfl

namespace Single

/-! ## Links -/

theorem successors_untracked (pool : List Single) (s : Single) :
    successors (pool.map untracked) s.untracked = (successors pool s).map untracked := by
  unfold successors
  rw [List.filter_map]
  exact (List.map_mergeSort (r := servedBefore) (f := untracked) fun _ _ _ _ => rfl).symm

theorem without_untracked (pool : List Single) (i : Identifier) :
    without (pool.map untracked) i = (without pool i).map untracked :=
  List.filter_map

/-- **The walk along the links does not look at tracks**, by induction on the pool. -/
theorem pathsFrom_untracked (pool before : List Single) (s : Single) :
    pathsFrom (pool.map untracked) (before.map untracked) s.untracked
      = (pathsFrom pool before s).map (List.map untracked) := by
  have hnext := successors_untracked
  induction pool, before, s using pathsFrom.induct with
  | case1 pool before s next hnil =>
    have hnil : successors pool s = [] := List.isEmpty_iff.mp hnil
    rw [pathsFrom_of_nil hnil, pathsFrom_of_nil (by rw [hnext, hnil, List.map_nil])]
    rw [List.map_singleton, List.map_append, List.map_singleton]
  | case2 pool before s path next hne ih =>
    have hne : successors pool s ≠ [] := by simpa using hne
    rw [pathsFrom_of_ne_nil hne,
      pathsFrom_of_ne_nil (by rwa [hnext, Ne, List.map_eq_nil_iff]), hnext, List.flatMap_map,
      List.map_flatMap]
    -- each successor goes on from the same pool, less itself
    apply List.flatMap_congr
    intro t ht
    rw [← ih t ht, ← without_untracked]
    show pathsFrom _ (before.map untracked ++ [s].map untracked) _ = _
    rw [← List.map_append]
    rfl

theorem paths_untracked (singles : List Single) :
    paths (singles.map untracked) = (paths singles).map (List.map untracked) := by
  unfold paths
  rw [List.filter_map, List.flatMap_map, List.map_flatMap]
  exact List.flatMap_congr fun s _ => pathsFrom_untracked singles [] s

theorem repeated?_untracked (seen : List Identifier) (singles : List Single) :
    repeated? seen (singles.map untracked) = repeated? seen singles := by
  induction singles generalizing seen with
  | nil => rfl
  | cons s rest ih =>
    rw [List.map_cons, repeated?, repeated?, ih]
    rfl

theorem unknownParent?_untracked (singles : List Single) :
    unknownParent? (singles.map untracked) = unknownParent? singles := by
  unfold unknownParent?
  simp only [List.filterMap_map, List.any_map]
  rfl

end Single

namespace Sentence

/-! ## Assembling -/

theorem ofPath_untracked (way : List Single) :
    ofPath (way.map Single.untracked) = (ofPath way).untracked := by
  have hchain (way : List Single) : (chain (way.map single) none).untracked
      = chain ((way.map Single.untracked).map single) none := by
    rw [untracked, untrackedList_eq_map, List.map_map, List.map_map]
    rfl
  cases way with
  | nil => rfl
  | cons s rest =>
    cases rest with
    | nil => rfl
    | cons t rest => exact (hchain (s :: t :: rest)).symm

theorem coveredPath_untracked (way : List Single) :
    coveredPath (way.map Single.untracked) = untracked <$> coveredPath way := by
  unfold coveredPath
  rw [ofPath_untracked, checkCovered_untracked]
  cases checkCovered (ofPath way) <;> rfl

theorem forM_checkCovered_untracked (chains : List Sentence) :
    (chains.map untracked).forM checkCovered = chains.forM checkCovered := by
  induction chains with
  | nil => rfl
  | cons chain rest ih =>
    show (checkCovered chain.untracked >>= fun _ => (rest.map untracked).forM checkCovered)
      = (checkCovered chain >>= fun _ => rest.forM checkCovered)
    rw [checkCovered_untracked, ih]

/-- **Sentences without their tracks are assembled to the units without theirs**, or fail to be for
the same reason. -/
theorem assemble_untracked (sentences : List Sentence) :
    assemble (sentences.map untracked) = List.map untracked <$> assemble sentences := by
  have hchains : (sentences.map untracked).filter isChain
      = (sentences.filter isChain).map untracked := by
    rw [List.filter_map]
    congr 1
    exact List.filter_congr fun s _ => isChain_untracked s
  have hsingles : (sentences.map untracked).filterMap single?
      = (sentences.filterMap single?).map Single.untracked := singlesOf_map_untracked sentences
  have hmissed (singles : List Single) (paths : List (List Single)) :
      (singles.map Single.untracked).any (fun s =>
          !(paths.map (List.map Single.untracked)).any (·.any (·.identifier = s.identifier)))
        = singles.any fun s => !paths.any (·.any (·.identifier = s.identifier)) := by
    simp only [List.any_map, Function.comp_def]
    rfl
  unfold assemble
  simp only [hchains, hsingles, forM_checkCovered_untracked, Single.repeated?_untracked,
    Single.unknownParent?_untracked, Single.paths_untracked, hmissed,
    Answered.mapM_map_eq_map coveredPath_untracked]
  generalize sentences.filter isChain = chains
  generalize sentences.filterMap single? = singles
  generalize (singles.any fun s =>
    !(Single.paths singles).any (·.any (·.identifier = s.identifier))) = cyclic
  -- one step after the other fails for both or for neither
  cases chains.forM checkCovered with
  | error e => rfl
  | ok =>
    cases Single.repeated? [] singles with
    | some i => rfl
    | none =>
      cases Single.unknownParent? singles with
      | some i => rfl
      | none =>
        cases (Single.paths singles).mapM coveredPath with
        | error e => rfl
        | ok units =>
          cases cyclic with
          | true => rfl
          | false => exact congrArg Except.ok List.map_append.symm

/-! ## Classifying -/

/-- As many components are put on their tracks, and if all of them are, on the same ones. -/
theorem classifyComponents_untracked (parts : List Sentence) :
    (classifyComponents config inputs assumption (parts.map untracked)).2
        = (classifyComponents config inputs assumption parts).2
      ∧ ((classifyComponents config inputs assumption parts).2 = none →
        (classifyComponents config inputs assumption (parts.map untracked)).1
          = (classifyComponents config inputs assumption parts).1) := by
  induction parts with
  | nil => exact ⟨rfl, fun _ => rfl⟩
  | cons part rest ih =>
    rw [List.map_cons, classifyComponents, classifyComponents, single?_untracked]
    cases part with
    | chain parts whole =>
      refine ⟨rfl, fun hnone => ?_⟩
      cases hnone
    | single s =>
      have hfound : (orFail (single s).single? (.breach .nestedChain) >>= fun s =>
          s.trackFor config inputs assumption) = s.trackFor config inputs assumption := rfl
      have hfound' : (orFail ((single s).single?.map Single.untracked) (.breach .nestedChain)
          >>= fun s => s.trackFor config inputs assumption)
            = s.trackFor config inputs assumption := rfl
      -- the tracks are looked for without a look at those there are
      simp only [hfound, hfound']
      cases s.trackFor config inputs assumption with
      | error e =>
        refine ⟨rfl, fun hnone => ?_⟩
        cases hnone
      | ok track => exact ⟨ih.1, fun hnone => congrArg (_ :: ·) (ih.2 hnone)⟩

theorem classify_chain (parts : List Sentence) (whole : Option Track) :
    (chain parts whole).classify config inputs assumption
      = match classifyComponents config inputs assumption parts with
        | (_, some failure) => .error failure
        | (parts, none) => match (chain parts none).weightiestTrack? with
          | some track => .ok (chain parts (some track))
          | none => .error (.breach .noClassifiedComponents) := by
  rw [classify, classifyAsFar, components]
  cases classifyComponents config inputs assumption parts with
  | mk parts failure =>
    cases failure with
    | some failure => rfl
    | none =>
      have hweight : (chain parts whole).weightiestTrack? = (chain parts none).weightiestTrack? :=
        rfl
      simp only [withComponents, hweight]
      cases (chain parts none).weightiestTrack? <;> rfl

theorem classify_single (s : Single) : (single s).classify config inputs assumption
    = (fun track => single { s with track := some track })
      <$> s.trackFor config inputs assumption := by
  have hfound : (orFail (single s).single? (.breach .nestedChain) >>= fun s =>
      s.trackFor config inputs assumption) = s.trackFor config inputs assumption := rfl
  rw [classify, classifyAsFar, components, classifyComponents]
  simp only [hfound]
  cases s.trackFor config inputs assumption with
  | error e => rfl
  | ok track =>
    have hweight := weightiestTrack?_single s track
    simp only [classifyComponents, withComponents, onTrack, hweight]
    rfl

/-- **A unit without its tracks is classified as the unit is**, or fails to be for the same
reason. -/
theorem classify_untracked (s : Sentence) :
    s.untracked.classify config inputs assumption = s.classify config inputs assumption := by
  cases s with
  | single s =>
    rw [untracked, classify_single, classify_single, Single.trackFor_untracked]
    rfl
  | chain parts whole =>
    -- either both runs fail alike, or they come to the same components
    obtain ⟨hfailure, hparts⟩ := @classifyComponents_untracked config inputs assumption parts
    rw [untracked, untrackedList_eq_map, classify_chain, classify_chain]
    cases hbefore : classifyComponents config inputs assumption parts with
    | mk before failure =>
      cases hafter : classifyComponents config inputs assumption (parts.map untracked) with
      | mk after failure' =>
        rw [hbefore, hafter] at hfailure hparts
        obtain rfl : failure' = failure := hfailure
        cases failure' with
        | some failure => rfl
        | none =>
          obtain rfl : after = before := hparts rfl
          rfl

/-- **Classification depends on a unit without its tracks.** -/
theorem classify_congr {s t : Sentence} (h : s.untracked = t.untracked) :
    s.classify config inputs assumption = t.classify config inputs assumption := by
  rw [← classify_untracked s, h, classify_untracked]

end Sentence

namespace ClassifiedAs

variable {before after : Sentence}

/-- Every component is on a track, and the whole is. -/
theorem exists_track (h : ClassifiedAs config inputs assumption before after) :
    (∀ part ∈ after.components, ∃ track, part.track? = some track)
      ∧ ∃ track, after.track? = some track := by
  refine ⟨fun part hpart => ?_, ?_⟩
  · obtain ⟨_, _, s, track, _, _, rfl⟩ := Answered.exists_of_mem_right h.components hpart
    exact ⟨track, rfl⟩
  · obtain ⟨track, htrack, _⟩ := h.weightiest
    exact ⟨track, htrack⟩

/-- **Classifying again changes nothing.** -/
theorem again (h : ClassifiedAs config inputs assumption before after) :
    after.classify config inputs assumption = .ok after := by
  rw [Sentence.classify_congr h.untracked_eq]
  exact Sentence.classify_eq_ok_iff.mpr h

end ClassifiedAs

end Custody
