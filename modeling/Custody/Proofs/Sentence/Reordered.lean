import Custody.Proofs.Sentence.Assembly

/-!
# Sentences in another order

Chains can be made of sentences in one order exactly when they can in another, and then they are the
same chains. The order of the units may still change: recorded chains and the starts of ways keep
the order of the sentences, and so do followers that are served on equal terms. Where no two
sentences are found in the same place of the record, units of one place are all made of one
sentence, and nothing of their order is left open.

* **`assemble_perm`**: the units are the same, in one order or another.
* **`filter_sequence_assemble`**: units of one place in the record keep their order.
-/

namespace Custody

namespace Single

variable {singles singles' pool pool' before way : List Single} {s t : Single}

/-! ## Ways -/

theorem WayTo.of_subset (h : WayTo singles t way) (hsub : singles ⊆ singles') :
    WayTo singles' t way := by
  induction h with
  | start hs hfirst => exact .start (hsub hs) hfirst
  | on _ ht hlink ih => exact .on ih (hsub ht) hlink

theorem wayTo_congr (hperm : singles.Perm singles') : WayTo singles t way ↔ WayTo singles' t way :=
  ⟨fun h => h.of_subset hperm.subset, fun h => h.of_subset hperm.symm.subset⟩

theorem isLast_congr (hperm : singles.Perm singles') : IsLast singles s ↔ IsLast singles' s := by
  unfold IsLast
  simp only [hperm.mem_iff]

theorem acyclic_congr (hperm : singles.Perm singles') : Acyclic singles ↔ Acyclic singles' := by
  have hleads : LeadsTo singles = LeadsTo singles' := by
    funext s t
    simp only [LeadsTo, hperm.mem_iff]
  unfold Acyclic
  rw [hleads]

theorem Distinct.perm (h : Distinct singles) (hperm : singles.Perm singles') : Distinct singles' :=
  (hperm.map Single.identifier).nodup_iff.mp h

/-- The walk lists the same ways. -/
theorem paths_perm (hdistinct : Distinct singles) (hperm : singles.Perm singles') :
    (paths singles).Perm (paths singles') := by
  have hdistinct' := hdistinct.perm hperm
  apply (List.perm_ext_iff_of_nodup (nodup_paths hdistinct) (nodup_paths hdistinct')).mpr
  intro way
  rw [mem_paths hdistinct, mem_paths hdistinct']
  simp only [wayTo_congr hperm, isLast_congr hperm]

/-! ## The walk where the record has one sentence in each place -/

/-- Followers that are served on equal terms are found in the same place. -/
theorem successors_eq_of_perm (hperm : pool.Perm pool') (hnodup : (pool.map Single.sequence).Nodup)
    (s : Single) : successors pool s = successors pool' s := by
  have hpool := (hperm.filter (·.consecutiveTo = some s.identifier))
  unfold successors
  apply List.Perm.eq_of_pairwise ?_
    (List.pairwise_mergeSort servedBefore_trans servedBefore_total _)
    (List.pairwise_mergeSort servedBefore_trans servedBefore_total _)
    ((List.mergeSort_perm _ _).trans (hpool.trans (List.mergeSort_perm _ _).symm))
  -- sentences that come equally early have the same numbers, and so are the same
  intro t u ht hu htu hut
  rw [List.mem_mergeSort, List.mem_filter] at ht hu
  rw [servedBefore_iff] at htu hut
  have hsequence : t.sequence = u.sequence := by
    unfold sequence
    rw [Prod.ext_iff, ← UInt32.toNat_inj, ← UInt32.toNat_inj]
    constructor <;> simp only <;> omega
  exact List.inj_on_of_nodup_map hnodup ht.1 (hperm.mem_iff.mpr hu.1) hsequence

/-- The walk goes the same way, by induction on the pool. -/
theorem pathsFrom_eq_of_perm (hnodup : (pool.map Single.sequence).Nodup) :
    ∀ pool', pool.Perm pool' → pathsFrom pool before s = pathsFrom pool' before s := by
  induction pool, before, s using pathsFrom.induct with
  | case1 pool before s next hnil =>
    intro pool' hperm
    have hnil : successors pool s = [] := List.isEmpty_iff.mp hnil
    have hnil' : successors pool' s = [] := by rw [← successors_eq_of_perm hperm hnodup, hnil]
    rw [pathsFrom_of_nil hnil, pathsFrom_of_nil hnil']
  | case2 pool before s path next hne ih =>
    intro pool' hperm
    have hsame := successors_eq_of_perm hperm hnodup s
    have hne : successors pool s ≠ [] := by simpa using hne
    rw [pathsFrom_of_ne_nil hne, pathsFrom_of_ne_nil (hsame ▸ hne), ← hsame]
    apply List.flatMap_congr
    intro t ht
    -- what is left of the pool has distinct numbers too
    have hsub : ((without pool t.identifier).map Single.sequence).Sublist
        (pool.map Single.sequence) := List.filter_sublist.map _
    exact ih t ht (hnodup.sublist hsub) _ (hperm.filter _)

end Single

namespace Sentence

variable {sentences sentences' units units' : List Sentence}

/-! ## Units -/

theorem linksResolve_congr {singles singles' : List Single} (hperm : singles.Perm singles') :
    LinksResolve singles ↔ LinksResolve singles' := by
  unfold LinksResolve
  simp only [hperm.mem_iff]

theorem Assemblable.perm (h : Assemblable sentences) (hperm : sentences.Perm sentences') :
    Assemblable sentences' := by
  have hsingles : (singlesOf sentences).Perm (singlesOf sentences') := hperm.filterMap _
  refine ⟨fun parts track hmem => h.chains parts track (hperm.mem_iff.mpr hmem),
    h.distinct.perm hsingles, (linksResolve_congr hsingles).mp h.resolve,
    (Single.acyclic_congr hsingles).mp h.acyclic, fun s way hway hlast => ?_⟩
  exact h.ways s way ((Single.wayTo_congr hsingles).mpr hway)
    ((Single.isLast_congr hsingles).mpr hlast)

/-- **The units of sentences in another order are the same units.** -/
theorem assemble_perm (h : assemble sentences = .ok units) (hperm : sentences.Perm sentences') :
    ∃ units', assemble sentences' = .ok units' ∧ units.Perm units' := by
  obtain ⟨hable, rfl⟩ := assemble_eq_ok_iff.mp h
  refine ⟨_, assemble_eq_ok_iff.mpr ⟨hable.perm hperm, rfl⟩, ?_⟩
  exact (hperm.filter _).append
    ((Single.paths_perm hable.distinct (hperm.filterMap _)).map ofPath)

/-- The unit of a way is found where the first sentence on it is. -/
theorem sequence_ofPath {way : List Single} {s : Single} (h : [s] <+: way) :
    (ofPath way).sequence = s.sequence := by
  obtain ⟨rest, rfl⟩ := h
  cases rest <;> rfl

theorem map_sequence_singlesOf (sentences : List Sentence) :
    ((singlesOf sentences).map Single.sequence).Sublist (sentences.map sequence) := by
  induction sentences with
  | nil => exact List.Sublist.slnil
  | cons s sentences ih =>
    cases s with
    | single s => exact ih.cons_cons s.sequence
    | chain parts track => exact ih.cons _

/-- **Units that are found in one place are made of the one sentence that is found there**, and in
the order of its ways. -/
theorem filter_sequence_assemble (hperm : sentences.Perm sentences')
    (hnodup : (sentences.map sequence).Nodup) (h : assemble sentences = .ok units)
    (h' : assemble sentences' = .ok units') (place : UInt32 × UInt32) :
    units.filter (·.sequence = place) = units'.filter (·.sequence = place) := by
  obtain ⟨hable, rfl⟩ := assemble_eq_ok_iff.mp h
  obtain ⟨hable', rfl⟩ := assemble_eq_ok_iff.mp h'
  have hsingles : (singlesOf sentences).Perm (singlesOf sentences') := hperm.filterMap _
  have hplaces := hnodup.sublist (map_sequence_singlesOf sentences)
  rw [List.filter_append, List.filter_append]
  congr 1
  · have hchains : ((sentences.filter isChain).map sequence).Nodup :=
      hnodup.sublist (List.filter_sublist.map _)
    exact Sorting.filter_key_eq_of_perm (hperm.filter _) hchains place
  · -- the ways from one start are kept or left out together, and there is one start at most
    have hkey (singles : List Single) : ∀ r : Single, ∀ unit ∈
        (Single.pathsFrom singles [] r).map ofPath, unit.sequence = r.sequence := by
      intro r unit hunit
      obtain ⟨way, hway, rfl⟩ := List.mem_map.mp hunit
      exact sequence_ofPath (Single.prefix_of_mem_pathsFrom hway)
    have hroots : (((singlesOf sentences).filter (·.consecutiveTo.isNone)).map
        Single.sequence).Nodup := hplaces.sublist (List.filter_sublist.map _)
    unfold Single.paths
    rw [List.map_flatMap, List.map_flatMap, Sorting.filter_key_flatMap (hkey _),
      Sorting.filter_key_flatMap (hkey _),
      Sorting.filter_key_eq_of_perm (hsingles.filter _) hroots place]
    apply List.flatMap_congr
    intro r _
    rw [Single.pathsFrom_eq_of_perm hplaces _ hsingles]

end Sentence

end Custody
