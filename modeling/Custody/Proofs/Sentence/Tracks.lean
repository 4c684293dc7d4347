import Custody.Proofs.Sentence.Untracked
import Custody.Sentence.Assembly
import Custody.Sentence.Classification

/-!
# Sentences on their tracks

Classification puts every component on a track and the sentence on the weightiest of them, and
changes nothing else (`ClassifiedAs`). Of the two assumptions, the one of early release differs from
the standard one only in that it may put a component on the early track where the other has it on
the standard one (`Track.Eased`), and this does not show in what kind of sentence the whole is.

* **`classify_classifiedAs`**, **`classify_eq_ok_iff`**: what classification does, and that it does
  so whatever tracks there were before.
* **`trackFor_eased`**: a component under the two assumptions.
* **`ClassifiedAs.tracks_agree`**: a sentence that is covered is on the same track under both, or on
  one for standard determinate sentences under either.
-/

namespace Custody

open Custody.Calendar

variable {config : Config} {inputs : Inputs} {assumption : Assumption}

/-! ## One sentence under one assumption -/

/-- A component before and after it is put on its track. -/
def ComponentClassified (config : Config) (inputs : Inputs) (assumption : Assumption)
    (before after : Sentence) : Prop :=
  ∃ s track, before = .single s ∧ s.trackFor config inputs assumption = .ok track
    ∧ after = .single { s with track := some track }

/-- A sentence before and after classification: every component is on its track, the whole is on the
weightiest of them, and nothing else has changed. -/
structure ClassifiedAs (config : Config) (inputs : Inputs) (assumption : Assumption)
    (before after : Sentence) : Prop where
  components : List.Forall₂ (ComponentClassified config inputs assumption) before.components
    after.components
  untracked_eq : after.untracked = before.untracked
  weightiest : ∃ track, after.track? = some track ∧ after.weightiestTrack? = some track

namespace Sentence

theorem classifyComponents_classified {parts parts' : List Sentence}
    (h : classifyComponents config inputs assumption parts = (parts', none)) :
    List.Forall₂ (ComponentClassified config inputs assumption) parts parts' := by
  induction parts generalizing parts' with
  | nil =>
    cases h
    exact .nil
  | cons part rest ih =>
    rw [classifyComponents] at h
    simp only at h
    split at h
    · cases h
    · -- no component has failed, so each has been put on the track that was found for it
      next track htrack =>
      simp only [Prod.mk.injEq] at h
      obtain ⟨rfl, hnone⟩ := h
      rw [Answered.bind_eq_ok] at htrack
      obtain ⟨s, hs, htrack⟩ := htrack
      rw [Answered.orFail_eq_ok] at hs
      cases part with
      | chain parts whole => cases hs
      | single s' =>
        cases hs
        refine .cons ⟨s, track, rfl, htrack, rfl⟩ (ih ?_)
        rw [← hnone]

/-- Classified components are the components without their tracks. -/
theorem map_untracked_of_classified {parts parts' : List Sentence}
    (h : List.Forall₂ (ComponentClassified config inputs assumption) parts parts') :
    parts'.map untracked = parts.map untracked := by
  induction h with
  | nil => rfl
  | cons hpart _ ih =>
    obtain ⟨s, track, rfl, _, rfl⟩ := hpart
    rw [List.map_cons, List.map_cons, ih]
    rfl

theorem weightiestTrack?_single (s : Single) (track : Track) :
    (single { s with track := some track }).weightiestTrack? = some track := by
  cases track <;> rfl

/-- **What classification does.** -/
theorem classify_classifiedAs {s s' : Sentence}
    (h : s.classify config inputs assumption = .ok s') :
    ClassifiedAs config inputs assumption s s' := by
  rw [classify, classifyAsFar] at h
  cases hparts : classifyComponents config inputs assumption s.components with
  | mk parts' failure =>
    rw [hparts] at h
    cases failure with
    | some failure => cases h
    | none =>
      have hclassified := classifyComponents_classified hparts
      cases s with
      | single s =>
        -- the only component is the sentence itself, and its track is the weightiest
        obtain ⟨after, _, ⟨s₀, track, hs, htrack, rfl⟩, hrest, rfl⟩ :=
          List.forall₂_cons_left_iff.mp hclassified
        cases hs
        cases hrest
        simp only [withComponents, weightiestTrack?_single] at h
        cases h
        exact ⟨hclassified, rfl, track, rfl, weightiestTrack?_single s track⟩
      | chain parts track =>
        simp only [withComponents] at h
        cases hweight : (chain parts' track).weightiestTrack? with
        | none =>
          rw [hweight] at h
          cases h
        | some weightiest =>
          rw [hweight] at h
          cases h
          refine ⟨hclassified, ?_, weightiest, rfl, hweight⟩
          simp only [onTrack, untracked, untrackedList_eq_map]
          rw [map_untracked_of_classified hclassified]
          rfl

/-- Components that can be put on their tracks are. -/
theorem classifyComponents_of_classified {parts parts' : List Sentence}
    (h : List.Forall₂ (ComponentClassified config inputs assumption) parts parts') :
    classifyComponents config inputs assumption parts = (parts', none) := by
  induction h with
  | nil => rfl
  | cons hpart _ ih =>
    obtain ⟨s, track, rfl, htrack, rfl⟩ := hpart
    have hfound : (orFail (single s).single? (.breach .nestedChain) >>= fun s =>
        s.trackFor config inputs assumption) = .ok track := htrack
    rw [classifyComponents]
    simp only [hfound, ih]
    rfl

/-- **Classification is what it does.** There is no other result that is classified as it should
be. -/
theorem classify_eq_ok_iff {s s' : Sentence} :
    s.classify config inputs assumption = .ok s' ↔ ClassifiedAs config inputs assumption s s' := by
  refine ⟨classify_classifiedAs, fun h => ?_⟩
  obtain ⟨track, htrack, hweightiest⟩ := h.weightiest
  have hparts := classifyComponents_of_classified h.components
  rw [classify, classifyAsFar, hparts]
  cases s with
  | single s =>
    cases s' with
    | single s' =>
      have htrack : some track = s'.track := htrack.symm
      simp only [components, withComponents, hweightiest, onTrack]
      rw [htrack]
    | chain => cases h.untracked_eq
  | chain parts whole =>
    cases s' with
    | single => cases h.untracked_eq
    | chain parts' whole' =>
      have htrack : whole' = some track := htrack
      -- the weightiest track is one of components, whatever the track of the whole was
      have hweightiest : (chain parts' whole).weightiestTrack? = some track := hweightiest
      simp only [components, withComponents, hweightiest, onTrack, htrack]

end Sentence

theorem Single.trackFor_untracked (s : Single) :
    s.untracked.trackFor config inputs assumption = s.trackFor config inputs assumption := rfl

namespace ClassifiedAs

variable {before after : Sentence}

/-- A track that is there before is not looked at. -/
theorem of_untracked_eq {before' : Sentence} (hsame : before.untracked = before'.untracked)
    (h : ClassifiedAs config inputs assumption before after) :
    ClassifiedAs config inputs assumption before' after := by
  have hparts : before.components.map Sentence.untracked
      = before'.components.map Sentence.untracked := by
    rw [← Sentence.components_untracked, hsame, Sentence.components_untracked]
  refine ⟨?_, h.untracked_eq.trans hsame, h.weightiest⟩
  rw [← List.forall₂_eq_eq_eq, List.forall₂_map_left_iff, List.forall₂_map_right_iff] at hparts
  -- the track of a component does not depend on the one it was on before
  refine (Answered.forall₂_of_common hparts h.components).imp fun part' part hboth => ?_
  obtain ⟨_, _, heq, s, track, rfl, htrack, rfl⟩ := hboth
  cases part' with
  | chain => cases heq
  | single s' =>
    have heq : s.untracked = s'.untracked := Sentence.single.inj heq
    refine ⟨s', track, rfl, ?_, ?_⟩
    · rw [← Single.trackFor_untracked, ← heq, Single.trackFor_untracked, htrack]
    · show Sentence.single { s.untracked with track := some track } = _
      rw [heq]
      rfl

/-- A component of the result is a single sentence that has been put on its track. -/
theorem exists_of_mem (h : ClassifiedAs config inputs assumption before after) {s : Single}
    (hs : s ∈ after.singles) : ∃ s₀ ∈ before.singles, ∃ track,
      s₀.trackFor config inputs assumption = .ok track ∧ s = { s₀ with track := some track } := by
  obtain ⟨part, hpart, hsingle⟩ := List.mem_filterMap.mp hs
  obtain ⟨part₀, hpart₀, s₀, track, rfl, htrack, rfl⟩ :=
    Answered.exists_of_mem_right h.components hpart
  cases hsingle
  exact ⟨s₀, List.mem_filterMap.mpr ⟨_, hpart₀, rfl⟩, track, htrack, rfl⟩

theorem map_track_singles (h : ClassifiedAs config inputs assumption before after) :
    after.singles.map Single.track = after.componentTracks.map some := by
  have hparts := h.components
  rw [Sentence.singles, Sentence.componentTracks]
  generalize before.components = parts at hparts
  generalize after.components = parts' at hparts
  induction hparts with
  | nil => rfl
  | cons hpart _ ih =>
    obtain ⟨s, track, rfl, _, rfl⟩ := hpart
    simp only [List.filterMap_cons, Sentence.single?, Sentence.track?, List.map_cons, ih]

theorem exists_single_of_mem_componentTracks
    (h : ClassifiedAs config inputs assumption before after) {t : Track}
    (ht : t ∈ after.componentTracks) :
    ∃ s₀ ∈ before.singles, s₀.trackFor config inputs assumption = .ok t
      ∧ { s₀ with track := some t } ∈ after.singles := by
  have hmem : some t ∈ after.singles.map Single.track := by
    rw [h.map_track_singles]
    exact List.mem_map_of_mem ht
  obtain ⟨s, hs, hst⟩ := List.mem_map.mp hmem
  obtain ⟨s₀, hs₀, track, htrack, rfl⟩ := h.exists_of_mem hs
  cases hst
  exact ⟨s₀, hs₀, htrack, hs⟩

end ClassifiedAs

/-! ## The track of a component under both assumptions -/

/-- The track of a component under the assumption of early release, beside that under the standard
one. -/
inductive Track.Eased : Track → Track → Prop where
  | same (track : Track) : Eased track track
  | early : Eased .sdsStandard .sdsEarly

namespace Single

/-- The track of a recalled sentence is that of a recall, and otherwise it is for its term. -/
theorem trackFor_cases {s : Single} {track : Track}
    (h : s.trackFor config inputs assumption = .ok track) :
    s.recallType.isRecall = true ∧ track = .recall
      ∨ s.recallType.isRecall = false ∧ match s.term with
        | .botus _ => track = .botus
        | .extended custodial _ => s.extendedTrack config custodial = .ok track
        | .standard t => s.standardTrack config inputs assumption t = .ok track := by
  rw [trackFor] at h
  split at h
  · cases h
  · -- a recall comes before all else, and then the kind of term decides
    cases hrecall : s.recallType.isRecall with
    | true =>
      rw [hrecall] at h
      cases h
      exact .inl ⟨rfl, rfl⟩
    | false =>
      rw [hrecall] at h
      refine .inr ⟨rfl, ?_⟩
      cases hterm : s.term with
      | standard t =>
        rw [hterm] at h
        exact h
      | extended custodial licence =>
        rw [hterm] at h
        exact h
      | botus duration =>
        rw [hterm] at h
        cases h
        rfl

theorem standardTrack_isSds {s : Single} {t : StandardTerm} {track : Track}
    (h : s.standardTrack config inputs assumption t = .ok track) : track.isSds = true := by
  simp only [standardTrack, Answered.bind_eq_ok] at h
  obtain ⟨isPlus, _, h⟩ := h
  cases isPlus with
  | true =>
    cases h
    rfl
  | false =>
    simp only [Bool.false_eq_true, if_false, Answered.bind_eq_ok, Answered.pure_eq_ok] at h
    obtain ⟨eligible, _, rfl⟩ := h
    rw [apply_ite Track.isSds]
    exact ite_self true

theorem extendedTrack_cases {s : Single} {custodial : Duration} {track : Track}
    (h : s.extendedTrack config custodial = .ok track) :
    track = .edsAutomatic ∨ track = .edsDiscretionary := by
  simp only [extendedTrack, Answered.bind_eq_ok, Answered.pure_eq_ok] at h
  obtain ⟨isLong, _, rfl⟩ := h
  split
  · exact .inl rfl
  · exact .inr rfl

theorem isRecall_of_trackFor {s : Single}
    (h : s.trackFor config inputs assumption = .ok .recall) : s.recallType.isRecall = true := by
  rcases trackFor_cases h with ⟨hrecall, _⟩ | ⟨_, hterm⟩
  · exact hrecall
  · split at hterm
    · cases hterm
    · rcases extendedTrack_cases hterm with h | h <;> cases h
    · cases standardTrack_isSds hterm

theorem isExtended_of_trackFor {s : Single} {track : Track}
    (h : s.trackFor config inputs assumption = .ok track)
    (htrack : track = .edsAutomatic ∨ track = .edsDiscretionary) : s.term.isExtended = true := by
  rcases trackFor_cases h with ⟨_, rfl⟩ | ⟨_, hterm⟩
  · rcases htrack with h | h <;> cases h
  · split at hterm
    · subst hterm
      rcases htrack with h | h <;> cases h
    · next heq => rw [heq]; rfl
    · have hsds := standardTrack_isSds hterm
      rcases htrack with rfl | rfl <;> cases hsds

/-- The early release scheme applies under the early assumption wherever it does under the standard
one, and takes sentences from the standard track alone. -/
theorem standardTrack_eased {s : Single} {t : StandardTerm} {standard early : Track}
    (hs : s.standardTrack config inputs .standard t = .ok standard)
    (he : s.standardTrack config inputs .early t = .ok early) : Track.Eased standard early := by
  simp only [standardTrack, Answered.bind_eq_ok] at hs he
  obtain ⟨isPlus, hplus, hs⟩ := hs
  obtain ⟨isPlus', hplus', he⟩ := he
  rw [hplus] at hplus'
  -- both look at the same sentence, and the assumption at what is left
  cases hplus'
  cases isPlus with
  | true =>
    cases hs
    cases he
    exact .same .sdsPlus
  | false =>
    simp only [Bool.false_eq_true, if_false, Answered.bind_eq_ok, Answered.pure_eq_ok] at hs he
    obtain ⟨eligible, heligible, rfl⟩ := hs
    obtain ⟨eligible', heligible', rfl⟩ := he
    rw [heligible] at heligible'
    cases heligible'
    cases eligible with
    | false => exact .same .sdsStandard
    | true =>
      rw [Bool.true_and, Bool.true_and]
      split
      · exact .same .sdsEarly
      · exact .early

/-- **A component under the two assumptions.** -/
theorem trackFor_eased {s : Single} {standard early : Track}
    (hs : s.trackFor config inputs .standard = .ok standard)
    (he : s.trackFor config inputs .early = .ok early) : Track.Eased standard early := by
  -- recall is decided before the assumption is looked at, and so is the kind of term
  rcases trackFor_cases hs with ⟨hrecall, rfl⟩ | ⟨hrecall, hs⟩
  · rcases trackFor_cases he with ⟨_, rfl⟩ | ⟨hrecall', _⟩
    · exact .same .recall
    · rw [hrecall] at hrecall'
      cases hrecall'
  · rcases trackFor_cases he with ⟨hrecall', _⟩ | ⟨_, he⟩
    · rw [hrecall] at hrecall'
      cases hrecall'
    · cases hterm : s.term with
      | standard t =>
        rw [hterm] at hs he
        exact standardTrack_eased hs he
      | extended custodial licence =>
        rw [hterm] at hs he
        change s.extendedTrack config custodial = .ok _ at hs he
        rw [hs] at he
        cases he
        exact .same standard
      | botus duration =>
        rw [hterm] at hs he
        change _ = Track.botus at hs he
        rw [hs, he]
        exact .same .botus

end Single

theorem ClassifiedAs.mem_componentTracks {before after : Sentence}
    (h : ClassifiedAs config inputs assumption before after) {t : Track}
    (ht : after.track? = some t) : t ∈ after.componentTracks := by
  obtain ⟨t', ht', hweight⟩ := h.weightiest
  rw [ht] at ht'
  cases ht'
  exact List.contains_iff_mem.mp (List.find?_some hweight)

theorem ClassifiedAs.isRecall_of_track {before after : Sentence}
    (h : ClassifiedAs config inputs assumption before after) (ht : after.track? = some .recall) :
    after.recallType.isRecall = true := by
  obtain ⟨s, _, htrack, hs⟩ := h.exists_single_of_mem_componentTracks (h.mem_componentTracks ht)
  have hrecall := Single.isRecall_of_trackFor htrack
  rw [Sentence.recallType]
  cases hfind : (after.singles.map Single.recallType).find? RecallType.isRecall with
  | none =>
    have hnone := List.find?_eq_none.mp hfind s.recallType (List.mem_map.mpr ⟨_, hs, rfl⟩)
    exact absurd hrecall hnone
  | some r => exact List.find?_some hfind

/-! ## The whole sentence under both assumptions -/

namespace Track

theorem Eased.eq_recall_iff {t t' : Track} (h : Eased t t') : t = .recall ↔ t' = .recall := by
  cases h with
  | same => exact Iff.rfl
  | early => decide

theorem Eased.isSds_eq {t t' : Track} (h : Eased t t') : t.isSds = t'.isSds := by
  cases h <;> rfl

/-- Tracks that are the same or both of standard determinate sentences agree on recall. -/
theorem recall_iff_of_agree {t t' : Track} (h : t = t' ∨ t.isSds = true ∧ t'.isSds = true) :
    t = .recall ↔ t' = .recall := by
  rcases h with rfl | ⟨hsds, hsds'⟩
  · exact Iff.rfl
  · constructor
    · rintro rfl
      cases hsds
    · rintro rfl
      cases hsds'

/-- A property that the scheme does not change is there among the tracks of both assumptions. -/
theorem exists_iff_of_eased {P : Track → Prop} (hP : ∀ t t', Eased t t' → (P t ↔ P t'))
    {tracks tracks' : List Track} (h : List.Forall₂ Eased tracks tracks') :
    (∃ t ∈ tracks, P t) ↔ ∃ t ∈ tracks', P t := by
  induction h with
  | nil => rfl
  | cons htrack _ ih => simp only [List.mem_cons, exists_eq_or_imp, ih, hP _ _ htrack]

end Track

/-- The weightiest of some tracks that are not of extended sentences: that of a recall if it is
among them, otherwise one of standard determinate sentences if there is any, and otherwise a
committal's. -/
theorem Sentence.weightiestTrack?_cases {s : Sentence} {track : Track}
    (h : s.weightiestTrack? = some track)
    (hextended : .edsAutomatic ∉ s.componentTracks ∧ .edsDiscretionary ∉ s.componentTracks) :
    .recall ∈ s.componentTracks ∧ track = .recall
      ∨ .recall ∉ s.componentTracks ∧ (∃ t ∈ s.componentTracks, t.isSds = true) ∧ track.isSds = true
      ∨ .recall ∉ s.componentTracks ∧ (∀ t ∈ s.componentTracks, t.isSds = false)
        ∧ track = .botus := by
  simp only [weightiestTrack?, trackPrecedence, List.find?_cons, List.find?_nil] at h
  split at h
  · next hrecall =>
    cases h
    exact .inl ⟨List.contains_iff_mem.mp hrecall, rfl⟩
  · next hrecall =>
    replace hrecall : .recall ∉ s.componentTracks := by simpa using hrecall
    refine .inr ?_
    split at h
    · next hplus =>
      cases h
      exact .inl ⟨hrecall, ⟨_, List.contains_iff_mem.mp hplus, rfl⟩, rfl⟩
    · next hplus =>
      split at h
      · next hstandard =>
        cases h
        exact .inl ⟨hrecall, ⟨_, List.contains_iff_mem.mp hstandard, rfl⟩, rfl⟩
      · next hstandard =>
        split at h
        · next heds => exact absurd (List.contains_iff_mem.mp heds) hextended.2
        · split at h
          · next heds => exact absurd (List.contains_iff_mem.mp heds) hextended.1
          · split at h
            · next hearly =>
              cases h
              exact .inl ⟨hrecall, ⟨_, List.contains_iff_mem.mp hearly, rfl⟩, rfl⟩
            · next hearly =>
              -- no standard determinate sentence is left, so the one found is a committal
              refine .inr ⟨hrecall, fun t ht => ?_, ?_⟩
              · have hne : s.componentTracks.contains t = true := List.contains_iff_mem.mpr ht
                cases t <;> simp_all [Track.isSds]
              · split at h
                · exact (Option.some.inj h).symm
                · cases h

namespace ClassifiedAs

variable {unit standard early : Sentence}

theorem componentTracks_eased (hs : ClassifiedAs config inputs .standard unit standard)
    (he : ClassifiedAs config inputs .early unit early) :
    List.Forall₂ Track.Eased standard.componentTracks early.componentTracks := by
  have hparts := Answered.forall₂_of_common hs.components he.components
  refine List.rel_filterMap (fun a b hab => ?_) hparts
  obtain ⟨_, _, ⟨s, t, rfl, ht, rfl⟩, ⟨s', t', hs', ht', rfl⟩⟩ := hab
  cases hs'
  exact .some (Single.trackFor_eased ht ht')

/-- In a chain that is covered no component is on a track of extended sentences. -/
theorem not_extended_of_covered {assumption : Assumption} {parts : List Sentence}
    {whole : Option Track} {after : Sentence}
    (h : ClassifiedAs config inputs assumption (.chain parts whole) after)
    (hcovered : (Sentence.chain parts whole).checkCovered = .ok ()) :
    .edsAutomatic ∉ after.componentTracks ∧ .edsDiscretionary ∉ after.componentTracks := by
  have hnone : ∀ t ∈ after.componentTracks, ¬ (t = .edsAutomatic ∨ t = .edsDiscretionary) := by
    intro t ht hextended
    obtain ⟨s₀, hs₀, htrack, _⟩ := h.exists_single_of_mem_componentTracks ht
    have hterm := Single.isExtended_of_trackFor htrack hextended
    obtain ⟨part, hpart, hsingle⟩ := List.mem_filterMap.mp hs₀
    have hany : parts.any (·.single?.any (·.term.isExtended)) = true :=
      List.any_eq_true.mpr ⟨part, hpart, by rw [hsingle]; exact hterm⟩
    simp only [Sentence.checkCovered, hany, if_true] at hcovered
    split at hcovered <;> cases hcovered
  exact ⟨fun hmem => hnone _ hmem (.inl rfl), fun hmem => hnone _ hmem (.inr rfl)⟩

theorem track_of_single {assumption : Assumption} {s : Single} {after : Sentence} {t : Track}
    (h : ClassifiedAs config inputs assumption (.single s) after) (ht : after.track? = some t) :
    s.trackFor config inputs assumption = .ok t := by
  have huntracked := h.untracked_eq
  have hparts := h.components
  -- what is classified is of the same shape
  cases after with
  | chain parts whole => cases huntracked
  | single s' =>
    obtain ⟨_, _, ⟨s₀, track, hs₀, htrack, hafter⟩, _, hcons⟩ :=
      List.forall₂_cons_left_iff.mp hparts
    cases hs₀
    cases hcons
    cases hafter
    cases ht
    exact htrack

/-- **The whole sentence under the two assumptions.** It is on the same track, or under both on one
of standard determinate sentences. -/
theorem tracks_agree (hs : ClassifiedAs config inputs .standard unit standard)
    (he : ClassifiedAs config inputs .early unit early) (hcovered : unit.checkCovered = .ok ())
    {t t' : Track} (ht : standard.track? = some t) (ht' : early.track? = some t') :
    t = t' ∨ t.isSds = true ∧ t'.isSds = true := by
  cases unit with
  | single s =>
    cases Single.trackFor_eased (hs.track_of_single ht) (he.track_of_single ht') with
    | same => exact .inl rfl
    | early => exact .inr ⟨rfl, rfl⟩
  | chain parts whole =>
    have heased := hs.componentTracks_eased he
    -- what decides on the kind of track is the same in both lists of component tracks
    have hrecall : .recall ∈ standard.componentTracks ↔ .recall ∈ early.componentTracks :=
      by simpa using Track.exists_iff_of_eased (fun _ _ h => h.eq_recall_iff) heased
    have hsds : (∃ t ∈ standard.componentTracks, t.isSds = true)
        ↔ ∃ t ∈ early.componentTracks, t.isSds = true :=
      Track.exists_iff_of_eased (fun _ _ h => by rw [h.isSds_eq]) heased
    obtain ⟨_, ht₁, hweight⟩ := hs.weightiest
    obtain ⟨_, ht₁', hweight'⟩ := he.weightiest
    cases ht₁.symm.trans ht
    cases ht₁'.symm.trans ht'
    have hcases := Sentence.weightiestTrack?_cases hweight (hs.not_extended_of_covered hcovered)
    have hcases' := Sentence.weightiestTrack?_cases hweight' (he.not_extended_of_covered hcovered)
    rcases hcases with ⟨h, rfl⟩ | ⟨h, hexists, htrack⟩ | ⟨h, hall, rfl⟩
    · rcases hcases' with ⟨_, rfl⟩ | ⟨h', _⟩ | ⟨h', _⟩
      · exact .inl rfl
      · exact absurd (hrecall.mp h) h'
      · exact absurd (hrecall.mp h) h'
    · rcases hcases' with ⟨h', _⟩ | ⟨_, _, htrack'⟩ | ⟨_, hall', _⟩
      · exact absurd (hrecall.mpr h') h
      · exact .inr ⟨htrack, htrack'⟩
      · obtain ⟨u, hu, husds⟩ := hsds.mp hexists
        rw [hall' u hu] at husds
        cases husds
    · rcases hcases' with ⟨h', _⟩ | ⟨_, hexists', _⟩ | ⟨_, _, rfl⟩
      · exact absurd (hrecall.mpr h') h
      · obtain ⟨u, hu, husds⟩ := hsds.mpr hexists'
        rw [hall u hu] at husds
        cases husds
      · exact .inl rfl

end ClassifiedAs

end Custody
