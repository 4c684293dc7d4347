import Custody.Proofs.Booking.Reordered
import Custody.Proofs.Sentence.Resubmitted

/-!
# The units of a booking recorded as its sentences

The units that a pass lists may be recorded in place of the sentences that they were assembled from.
They are on tracks by then and in the order of the timeline. Neither changes an answer: tracks that
are there before are not looked at, and assembly only puts chains in front, which the timeline puts
back where they were.

* **`entryOf_congr`**: the entry of a unit does not depend on the tracks it was on.
* **`timeline_resubmitted`**: the timeline of the units is the timeline of the sentences.
* **`calculate_resubmitted`**: both passes and the answer are the same.
-/

namespace Custody

open Custody.Calendar

namespace Booking

variable {config : Config} {inputs : Inputs} {assumption assumption' : Assumption} {b : Booking}
variable {p q : Pass} {units : List Sentence} {entries entries' : List TimelineEntry}

/-! ## Entries -/

theorem entryOf_of_untracked_eq {unit unit' : Sentence} {entry : TimelineEntry}
    (hsame : unit.untracked = unit'.untracked)
    (h : b.entryOf config inputs assumption unit = .ok entry) :
    b.entryOf config inputs assumption unit' = .ok entry := by
  obtain ⟨classified, hclassified, hplaced⟩ := Answered.bind_eq_ok.mp h
  have hclassified' : unit'.classify config inputs assumption = .ok classified :=
    Sentence.classify_eq_ok_iff.mpr
      ((Sentence.classify_eq_ok_iff.mp hclassified).of_untracked_eq hsame)
  exact Answered.bind_eq_ok.mpr ⟨classified, hclassified', hplaced⟩

/-- **The entry of a unit does not depend on the tracks it was on.** -/
theorem entryOf_congr {unit unit' : Sentence} {entry : TimelineEntry}
    (hsame : unit.untracked = unit'.untracked) :
    b.entryOf config inputs assumption unit = .ok entry
      ↔ b.entryOf config inputs assumption unit' = .ok entry :=
  ⟨entryOf_of_untracked_eq hsame, entryOf_of_untracked_eq hsame.symm⟩

theorem isChain_entryOf {unit : Sentence} {entry : TimelineEntry}
    (h : b.entryOf config inputs assumption unit = .ok entry) :
    unit.isChain = entry.unit.isChain := by
  rw [← Sentence.isChain_untracked, ← (entryOf_isOf h).classified.untracked_eq,
    Sentence.isChain_untracked]

/-! ## The timeline -/

/-- The units of one pass have the entries of another pass, in the same order. -/
theorem mapM_entryOf_sorted
    (hentries : units.mapM (b.entryOf config inputs assumption) = .ok entries)
    (hentries' : units.mapM (b.entryOf config inputs assumption') = .ok entries') :
    ((entries.mergeSort TimelineEntry.notAfter).map TimelineEntry.unit).mapM
        (b.entryOf config inputs assumption')
      = .ok (entries'.mergeSort TimelineEntry.notAfter) := by
  rw [Answered.mapM_eq_ok] at hentries hentries' ⊢
  -- the order looks at what both assumptions have in common
  have horder : ∀ x y x' y' : TimelineEntry,
      (∃ unit ∈ units, b.entryOf config inputs assumption unit = .ok x
        ∧ b.entryOf config inputs assumption' unit = .ok y) →
      (∃ unit ∈ units, b.entryOf config inputs assumption unit = .ok x'
        ∧ b.entryOf config inputs assumption' unit = .ok y') →
      x.notAfter x' = y.notAfter y' := by
    rintro x y x' y' ⟨_, _, hx, hy⟩ ⟨_, _, hx', hy'⟩
    exact TimelineEntry.notAfter_eq (entryOf_isOf hx) (entryOf_isOf hy) (entryOf_isOf hx')
      (entryOf_isOf hy')
  have hsorted := Answered.forall₂_mergeSort horder (Answered.forall₂_of_common hentries hentries')
  rw [List.forall₂_map_left_iff]
  refine hsorted.imp fun x y hxy => ?_
  obtain ⟨unit, _, hx, hy⟩ := hxy
  exact (entryOf_congr (entryOf_isOf hx).classified.untracked_eq).mpr hy

theorem perm_untracked (hentries : units.mapM (b.entryOf config inputs assumption) = .ok entries) :
    (units.map Sentence.untracked).Perm
      (((entries.mergeSort TimelineEntry.notAfter).map TimelineEntry.unit).map
        Sentence.untracked) := by
  have hsame : units.map Sentence.untracked
      = (entries.map TimelineEntry.unit).map Sentence.untracked := by
    rw [Answered.mapM_eq_ok] at hentries
    rw [← List.forall₂_eq_eq_eq, List.map_map, List.forall₂_map_left_iff,
      List.forall₂_map_right_iff]
    exact hentries.imp fun unit entry h => (entryOf_isOf h).classified.untracked_eq.symm
  rw [hsame]
  exact ((List.mergeSort_perm _ _).symm.map _).map _

/-- **The timeline of the units is the timeline of the sentences.** Chains come first when units are
assembled, and no two entries that the timeline cannot tell apart are a chain and a single
sentence. -/
theorem timeline_resubmitted (hnodup : (b.sentences.map Sentence.sequence).Nodup)
    (hunits : Sentence.assemble b.sentences = .ok units)
    (hentries : units.mapM (b.entryOf config inputs assumption) = .ok entries)
    (hentries' : units.mapM (b.entryOf config inputs assumption') = .ok entries')
    {sorted : List Sentence}
    (hsorted : sorted = (entries.mergeSort TimelineEntry.notAfter).map TimelineEntry.unit) :
    ∃ found, (sorted.filter Sentence.isChain ++ sorted.filter fun unit => !unit.isChain).mapM
        (b.entryOf config inputs assumption') = .ok found
      ∧ found.mergeSort TimelineEntry.notAfter
        = entries'.mergeSort TimelineEntry.notAfter := by
  subst hsorted
  have hall := mapM_entryOf_sorted hentries hentries'
  -- chains are taken out and put in front, each group in its order
  have hkept (keep : Bool → Bool) := Answered.mapM_filter
    (p := fun unit => keep unit.isChain) (q := fun entry => keep entry.unit.isChain)
    (fun unit entry h => by rw [isChain_entryOf h]) hall
  refine ⟨_, ?_, Sorting.mergeSort_parted TimelineEntry.notAfter_trans TimelineEntry.notAfter_total
    (fun entry => entry.unit.isChain)
    (List.pairwise_mergeSort TimelineEntry.notAfter_trans TimelineEntry.notAfter_total entries')
    fun x hx y hy hxy hyx => ?_⟩
  · rw [Answered.mapM_eq_ok]
    exact List.rel_append (Answered.mapM_eq_ok.mp (hkept id)) (Answered.mapM_eq_ok.mp (hkept not))
  · -- units that come equally early are of one sequence, so of one kind
    rw [List.mem_mergeSort] at hx hy
    obtain ⟨unit, hunit, hx⟩ := Answered.exists_of_mem_right (Answered.mapM_eq_ok.mp hentries') hx
    obtain ⟨unit', hunit', hy⟩ := Answered.exists_of_mem_right (Answered.mapM_eq_ok.mp hentries') hy
    rw [← isChain_entryOf hx, ← isChain_entryOf hy]
    apply Sentence.isChain_eq_of_sequence_eq hnodup hunits hunit hunit'
    rw [← sequence_entryOf hx, ← sequence_entryOf hy,
      TimelineEntry.sequence_eq_of_notAfter hxy hyx]

/-- Where the units have entries so do the units that were assembled from the sentences. -/
theorem exists_mapM_entryOf
    (hentries : units.mapM (b.entryOf config inputs assumption) = .ok entries)
    {sorted : List Sentence}
    (hsorted : sorted = (entries.mergeSort TimelineEntry.notAfter).map TimelineEntry.unit)
    (hfound : ∃ found, (sorted.filter Sentence.isChain
      ++ sorted.filter fun unit => !unit.isChain).mapM
        (b.entryOf config inputs assumption') = .ok found) :
    ∃ entries', units.mapM (b.entryOf config inputs assumption') = .ok entries' := by
  subst hsorted
  obtain ⟨found, hfound⟩ := hfound
  rw [Answered.mapM_eq_ok] at hfound
  refine Answered.exists_mapM_eq_ok fun unit hunit => ?_
  have hmem := (perm_untracked hentries).mem_iff.mp (List.mem_map_of_mem hunit)
  obtain ⟨unit', hunit', hsame⟩ := List.mem_map.mp hmem
  have hmem' := (List.filter_append_perm Sentence.isChain _).mem_iff.mpr hunit'
  obtain ⟨entry, _, hentry⟩ := Answered.exists_of_mem_right hfound.flip hmem'
  exact ⟨entry, (entryOf_congr hsame).mp hentry⟩

/-! ## The passes and the answer -/

/-- A pass lists a unit at least. -/
theorem units_ne_nil (h : b.pass config inputs assumption = .ok p) : p.units ≠ [] := by
  obtain ⟨_, _, entries, _, _, hunits, hcalculations, houtcome⟩ := pass_eq_ok.mp h
  intro hnil
  rw [hunits, List.map_eq_nil_iff] at hnil
  rw [hnil, Answered.mapM_eq_ok, List.forall₂_nil_left_iff] at hcalculations
  rw [hcalculations] at houtcome
  cases houtcome

/-- **A pass over the units is the pass over the sentences**, under either assumption. -/
theorem pass_resubmitted (hnodup : (b.sentences.map Sentence.sequence).Nodup)
    (h : b.pass config inputs assumption = .ok p) :
    { b with sentences := p.units }.pass config inputs assumption' = .ok q
      ↔ b.pass config inputs assumption' = .ok q := by
  have hne := units_ne_nil h
  obtain ⟨hsentences, units, entries, hassemble, hentries, hunits, _, _⟩ := pass_eq_ok.mp h
  have hassembled := (Sentence.assembled_of_assemble hassemble).of_perm_untracked
    (perm_untracked hentries)
  rw [← hunits] at hassembled
  rw [pass_eq_ok, pass_eq_ok]
  -- the units are put together as before, and then placed as before
  constructor
  · rintro ⟨_, _, found, hassemble', hfound, hq, hcalculations, houtcome⟩
    obtain rfl := Except.ok.inj (hassembled.assemble_eq.symm.trans hassemble')
    obtain ⟨entries', hentries'⟩ := exists_mapM_entryOf hentries hunits ⟨found, hfound⟩
    obtain ⟨found', hfound', hsame⟩ :=
      timeline_resubmitted hnodup hassemble hentries hentries' hunits
    obtain rfl := Except.ok.inj (hfound.symm.trans hfound')
    rw [hsame] at hq hcalculations
    exact ⟨hsentences, units, entries', hassemble, hentries', hq, hcalculations, houtcome⟩
  · rintro ⟨_, units', entries', hassemble', hentries', hq, hcalculations, houtcome⟩
    obtain rfl := Except.ok.inj (hassemble.symm.trans hassemble')
    obtain ⟨found, hfound, hsame⟩ :=
      timeline_resubmitted hnodup hassemble hentries hentries' hunits
    rw [← hsame] at hq hcalculations
    exact ⟨hne, _, found, hassembled.assemble_eq, hfound, hq, hcalculations, houtcome⟩

/-- **Recording the units of a booking in place of its sentences changes nothing.** Whatever the
assumption that they were listed under, there is a pass over them exactly if there is one over the
sentences, with the same dates, units and calculations, and so for the answer. -/
theorem calculate_resubmitted (hnodup : (b.sentences.map Sentence.sequence).Nodup)
    (h : b.pass config inputs assumption = .ok p) :
    (∀ assumption' q, { b with sentences := p.units }.pass config inputs assumption' = .ok q
        ↔ b.pass config inputs assumption' = .ok q)
      ∧ ∀ o, { b with sentences := p.units }.calculate config inputs = .ok o
        ↔ b.calculate config inputs = .ok o := by
  have hpass (assumption' : Assumption) (q : Pass) :
      { b with sentences := p.units }.pass config inputs assumption' = .ok q
        ↔ b.pass config inputs assumption' = .ok q := pass_resubmitted hnodup h
  refine ⟨hpass, fun o => ⟨fun ho => ?_, fun ho => ?_⟩⟩
  · obtain ⟨standard, early, tranche, hs, he, ht, rfl⟩ := calculate_eq_ok ho
    exact calculate_of_passes ((hpass _ _).mp hs) ((hpass _ _).mp he) ht
  · obtain ⟨standard, early, tranche, hs, he, ht, rfl⟩ := calculate_eq_ok ho
    exact calculate_of_passes ((hpass _ _).mpr hs) ((hpass _ _).mpr he) ht

/-- A sentence that two others follow, one by itself and a recorded chain. -/
def forked : Booking :=
  { sideBySide [] .empty with sentences := Sentence.fork }

theorem assemble_forked : Sentence.assemble forked.sentences
    = .ok [.chain [.single (.linked 5 none), .single (.linked 6 none)] none,
      .chain [.single (.linked 1 none), .single (.linked 2 (some 1))] none,
      .chain [.single (.linked 1 none), .single (.linked 3 (some 1))] none,
      .single (.linked 4 none)] := by
  show Sentence.assemble Sentence.fork = _
  rw [Sentence.assemble, Sentence.paths_fork]
  rfl

/-- The units come with two chains of one place first and the recorded chain last, and are released
on the same day when they are recorded in place of the sentences. -/
theorem calculate_resubmitted_forked :
    ∃ p o, forked.pass EnglandAndWales.config {} .standard = .ok p
      ∧ p.units.map (fun unit => (unit.sequences.map Prod.snd, unit.track?))
        = [([1, 2], some .botus), ([1, 3], some .botus), ([4], some .botus), ([5, 6], some .botus)]
      ∧ (forked.sentences.map Sentence.sequence).Nodup
      ∧ forked.calculate EnglandAndWales.config {} = .ok o
      ∧ o.date? .ard = some (EnglandAndWales.on 2020 11 21)
      ∧ { forked with sentences := p.units }.calculate EnglandAndWales.config {} = .ok o
      ∧ ∀ assumption q,
        { forked with sentences := p.units }.pass EnglandAndWales.config {} assumption = .ok q
          ↔ forked.pass EnglandAndWales.config {} assumption = .ok q := by
  have hpass : (fun p : Pass =>
        p.units.map fun unit => (unit.sequences.map Prod.snd, unit.track?))
        <$> forked.pass EnglandAndWales.config {} .standard
      = .ok [([1, 2], some .botus), ([1, 3], some .botus), ([4], some .botus),
        ([5, 6], some .botus)] := by
    simp only [pass, timeline_eq_insertionSort, assemble_forked]
    decide +kernel
  have hanswer : (fun o : Outcome => o.date? .ard) <$> forked.calculate EnglandAndWales.config {}
      = .ok (some (EnglandAndWales.on 2020 11 21)) := by
    simp only [calculate, pass, timeline_eq_insertionSort, assemble_forked]
    decide +kernel
  have hnodup : (forked.sentences.map Sentence.sequence).Nodup := by decide +kernel
  obtain ⟨p, hp, hunits⟩ := Answered.map_eq_ok.mp hpass
  obtain ⟨o, ho, hdate⟩ := Answered.map_eq_ok.mp hanswer
  obtain ⟨hsame, hanswer⟩ := calculate_resubmitted hnodup hp
  exact ⟨p, o, hp, hunits, hnodup, ho, hdate, (hanswer o).mpr ho, hsame⟩

end Booking

end Custody
