import Custody.Proofs.Sentence.Reordered
import Custody.Proofs.Sentence.Untracked

/-!
# Units that are recorded as sentences

Units are sentences themselves, and may be recorded in place of those that they were assembled from.
A chain is then recorded as such. A single sentence is a unit only if it follows none and none
follows it, so it is a unit again, and nothing is left to assemble: the chains come first.

* **`Assembled`**: what units are like, in whatever order and on whatever tracks.
* **`assembled_of_assemble`**, **`Assembled.assemble_eq`**: units are, and then they are their own
  units.
* **`isChain_eq_of_sequence_eq`**: units that are found in one place are chains together or not.
-/

namespace Custody

namespace Single

variable {singles : List Single}

/-- Where no sentence follows another each is a way of its own. -/
theorem paths_of_unlinked (h : ∀ s ∈ singles, s.consecutiveTo = none) :
    paths singles = singles.map fun s => [s] := by
  have hroots : singles.filter (·.consecutiveTo.isNone) = singles :=
    List.filter_eq_self.mpr fun s hs => by rw [h s hs, Option.isNone_none]
  have hend (s : Single) : successors singles s = [] := by
    rw [List.eq_nil_iff_forall_not_mem]
    intro t ht
    obtain ⟨hmem, hlink⟩ := mem_successors.mp ht
    rw [h t hmem] at hlink
    cases hlink
  rw [paths, hroots, List.map_eq_flatMap]
  exact List.flatMap_congr fun s _ => pathsFrom_of_nil (hend s)

/-- A way does not go on from a sentence that is last. -/
theorem WayTo.eq_singleton_of_isLast {s t : Single} {way : List Single} (h : WayTo singles t way)
    (hstart : [s] <+: way) (hlast : IsLast singles s) : way = [s] := by
  have hstart : [] ++ [s] <+: way := hstart
  by_contra hne
  obtain ⟨u, hu, hlink, _⟩ := h.exists_next hstart hne
  exact hlast u hu.mem_singles hlink

end Single

namespace Sentence

variable {sentences units units' : List Sentence}

/-! ## Tracks -/

theorem isChain_untracked (s : Sentence) : s.untracked.isChain = s.isChain := by
  cases s <;> rfl

/-- Whether a chain is covered does not depend on tracks. -/
theorem checkCovered_untracked (s : Sentence) : s.untracked.checkCovered = s.checkCovered := by
  cases s with
  | single s => rfl
  | chain parts track =>
    have hextended : (parts.map untracked).any (·.single?.any (·.term.isExtended))
        = parts.any (·.single?.any (·.term.isExtended)) := by
      rw [List.any_map]
      congr 1
      funext part
      cases part <;> rfl
    -- everything else that is checked is not about tracks
    simp only [untracked, untrackedList_eq_map, checkCovered, hextended, List.isEmpty_map,
      List.any_map, List.all_map, Function.comp_def, recallType_untracked]

/-! ## What units are like -/

/-- The single sentences are what is not a chain. -/
theorem map_single_singlesOf (units : List Sentence) :
    (singlesOf units).map single = units.filter fun unit => !unit.isChain := by
  induction units with
  | nil => rfl
  | cons unit units ih =>
    cases unit with
    | single s => exact congrArg (single s :: ·) ih
    | chain => exact ih

theorem singlesOf_map_untracked (units : List Sentence) :
    singlesOf (units.map untracked) = (singlesOf units).map Single.untracked := by
  rw [singlesOf, singlesOf, List.filterMap_map, List.map_filterMap]
  exact List.filterMap_congr fun unit _ => single?_untracked unit

/-- Sentences with nothing left to assemble. -/
structure Assembled (units : List Sentence) : Prop where
  covered : ∀ unit ∈ units, unit.checkCovered = .ok ()
  unlinked : ∀ s ∈ singlesOf units, s.consecutiveTo = none
  distinct : Single.Distinct (singlesOf units)

theorem assembled_of_assemble (h : assemble sentences = .ok units) : Assembled units := by
  obtain ⟨hable, rfl⟩ := assemble_eq_ok_iff.mp h
  have hchains : singlesOf (sentences.filter isChain) = [] := by
    rw [singlesOf, List.filterMap_eq_nil_iff]
    intro c hc
    cases c with
    | single => cases (List.mem_filter.mp hc).2
    | chain => rfl
  have hsingles : singlesOf (sentences.filter isChain
        ++ (Single.paths (singlesOf sentences)).map ofPath)
      = singlesOf ((Single.paths (singlesOf sentences)).map ofPath) := by
    rw [singlesOf, List.filterMap_append]
    exact congrArg (· ++ _) hchains
  -- a single sentence among the units is a way of its own
  have hway (s : Single) (hs : s ∈ singlesOf ((Single.paths (singlesOf sentences)).map ofPath)) :
      s.consecutiveTo = none ∧ s ∈ singlesOf sentences := by
    obtain ⟨unit, hunit, hsingle⟩ := List.mem_filterMap.mp hs
    obtain ⟨way, hway, rfl⟩ := List.mem_map.mp hunit
    obtain ⟨t, hto, _⟩ := (Single.mem_paths hable.distinct).mp hway
    rw [ofPath_eq hto] at hsingle
    split at hsingle
    · next hfirst =>
      cases hsingle
      exact ⟨hfirst, hto.mem_singles⟩
    · cases hsingle
  refine ⟨assemble_covered h, ?_, ?_⟩
  · rw [hsingles]
    exact fun s hs => (hway s hs).1
  · rw [hsingles]
    have hnodup : (singlesOf ((Single.paths (singlesOf sentences)).map ofPath)).Nodup := by
      refine ((Single.nodup_paths hable.distinct).map ofPath_injective).filterMap ?_
      intro unit unit' s hs hs'
      cases unit <;> cases hs
      cases unit' <;> cases hs'
      rfl
    exact hnodup.map_on fun s hs t ht heq =>
      hable.distinct.eq_of_identifier_eq (hway s hs).2 (hway t ht).2 heq

namespace Assembled

/-- Neither the order of the units nor their tracks matter. -/
theorem of_perm_untracked (h : Assembled units)
    (hperm : (units.map untracked).Perm (units'.map untracked)) : Assembled units' := by
  have hsingles : ((singlesOf units).map Single.untracked).Perm
      ((singlesOf units').map Single.untracked) := by
    rw [← singlesOf_map_untracked, ← singlesOf_map_untracked]
    exact hperm.filterMap _
  refine ⟨fun unit' hunit' => ?_, fun s' hs' => ?_, ?_⟩
  · obtain ⟨unit, hunit, heq⟩ := List.mem_map.mp (hperm.mem_iff.mpr (List.mem_map_of_mem hunit'))
    rw [← checkCovered_untracked, ← heq, checkCovered_untracked, h.covered unit hunit]
  · obtain ⟨s, hs, heq⟩ := List.mem_map.mp (hsingles.mem_iff.mpr (List.mem_map_of_mem hs'))
    exact (congrArg Single.consecutiveTo heq).symm.trans (h.unlinked s hs)
  · -- identifiers are kept when tracks are taken off
    have hidentifiers (singles : List Single) : singles.map Single.identifier
        = (singles.map Single.untracked).map Single.identifier := by
      rw [List.map_map]
      rfl
    have hdistinct := h.distinct
    unfold Single.Distinct at hdistinct ⊢
    rw [hidentifiers] at hdistinct ⊢
    exact (hsingles.map _).nodup_iff.mp hdistinct

/-- **Units are their own units**, the chains before the single sentences. -/
theorem assemble_eq (h : Assembled units) :
    assemble units = .ok (units.filter isChain ++ units.filter fun unit => !unit.isChain) := by
  refine assemble_eq_ok_iff.mpr ⟨⟨?_, h.distinct, ?_, ?_, ?_⟩, ?_⟩
  · intro parts track hmem
    exact checkCovered_chain_eq_ok_iff.mp (h.covered _ hmem)
  · intro s hs i hlink
    rw [h.unlinked s hs] at hlink
    cases hlink
  · -- a circle would begin with a link
    intro s hcycle
    obtain ⟨t, ⟨_, ht, hlink⟩, _⟩ := Relation.TransGen.head'_iff.mp hcycle
    rw [h.unlinked t ht] at hlink
    cases hlink
  · -- and the way to a sentence is that sentence
    intro s way hway _ htwo
    rw [hway.eq_singleton_iff.mpr (h.unlinked s hway.mem_singles)] at htwo
    simp at htwo
  · rw [Single.paths_of_unlinked h.unlinked, List.map_map, ← map_single_singlesOf]
    rfl

end Assembled

/-! ## Units of one place -/

/-- A unit is found where a sentence is that was recorded: the chain that it is, or else the start
of its way. -/
theorem exists_start_of_mem (h : assemble sentences = .ok units) {unit : Sentence}
    (hunit : unit ∈ units) :
    ∃ start ∈ sentences, start.sequence = unit.sequence
      ∧ (unit.isChain = true ∧ start = unit
        ∨ ∃ s t way, start = single s ∧ unit = ofPath way ∧ [s] <+: way
          ∧ Single.WayTo (singlesOf sentences) t way
          ∧ Single.IsLast (singlesOf sentences) t) := by
  obtain ⟨hable, rfl⟩ := assemble_eq_ok_iff.mp h
  rcases List.mem_append.mp hunit with hchain | hlinked
  · obtain ⟨hmem, hchain⟩ := List.mem_filter.mp hchain
    exact ⟨unit, hmem, rfl, .inl ⟨hchain, rfl⟩⟩
  · obtain ⟨way, hway, rfl⟩ := List.mem_map.mp hlinked
    obtain ⟨t, hto, hlast⟩ := (Single.mem_paths hable.distinct).mp hway
    obtain ⟨s, hs, _, hstart⟩ := hto.exists_start
    obtain ⟨start, hmem, hsingle⟩ := List.mem_filterMap.mp hs
    cases start with
    | chain => cases hsingle
    | single s' =>
      cases hsingle
      exact ⟨single s, hmem, (sequence_ofPath hstart).symm,
        .inr ⟨s, t, way, rfl, rfl, hstart, hto, hlast⟩⟩

theorem isChain_ofPath_eq_false_iff {way : List Single} {s : Single} (hstart : [s] <+: way) :
    (ofPath way).isChain = false ↔ way = [s] := by
  obtain ⟨rest, rfl⟩ := hstart
  cases rest <;> simp [ofPath, isChain]

/-- **Units that are found in one place are chains together or not**, where the record has one
sentence in each place: a single sentence that is a unit is the start of no other way. -/
theorem isChain_eq_of_sequence_eq (hnodup : (sentences.map sequence).Nodup)
    (h : assemble sentences = .ok units) {unit unit' : Sentence} (hunit : unit ∈ units)
    (hunit' : unit' ∈ units) (hsequence : unit.sequence = unit'.sequence) :
    unit.isChain = unit'.isChain := by
  obtain ⟨start, hmem, hplace, hcases⟩ := exists_start_of_mem h hunit
  obtain ⟨start', hmem', hplace', hcases'⟩ := exists_start_of_mem h hunit'
  obtain rfl : start = start' := List.inj_on_of_nodup_map hnodup hmem hmem'
    (hplace.trans (hsequence.trans hplace'.symm))
  rcases hcases with ⟨hchain, rfl⟩ | ⟨s, t, way, rfl, rfl, hstart, hto, hlast⟩
  · rcases hcases' with ⟨hchain', rfl⟩ | ⟨_, _, _, rfl, _⟩
    · rfl
    · cases hchain
  · rcases hcases' with ⟨hchain', rfl⟩ | ⟨s', t', way', hsame, rfl, hstart', hto', hlast'⟩
    · cases hchain'
    · cases hsame
      -- a way that is over with its start has a start that is last
      have hover {t way} (hto : Single.WayTo (singlesOf sentences) t way)
          (hlast : Single.IsLast (singlesOf sentences) t) (hway : way = [s]) :
          Single.IsLast (singlesOf sentences) s := by
        subst hway
        have hto : Single.WayTo (singlesOf sentences) t ([] ++ [s]) := hto
        exact hto.eq_of_concat ▸ hlast
      rw [Bool.eq_iff_iff, ← not_iff_not, Bool.not_eq_true, Bool.not_eq_true,
        isChain_ofPath_eq_false_iff hstart, isChain_ofPath_eq_false_iff hstart']
      exact ⟨fun hway => hto'.eq_singleton_of_isLast hstart' (hover hto hlast hway),
        fun hway => hto.eq_singleton_of_isLast hstart (hover hto' hlast' hway)⟩

end Sentence

end Custody
