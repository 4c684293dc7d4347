import Custody.Proofs.Booking.Timeline
import Custody.Proofs.Outcome.Merge
import Custody.Proofs.Sentence.Assembly
import Custody.Proofs.Unit.Release

/-!
# The two passes over a booking

Both passes start from the same units and put them in the same order: an assumption changes tracks
alone, and neither the date nor the place of a unit depends on its track. So the calculations of the
two passes correspond one by one, and each is of the same unit under the two assumptions.

* **`Booking.calculate_eq_ok`**, **`Booking.pass_eq_ok`**: what an answer is made of.
* **`Booking.unit_of_pass`**: units and calculations of a pass, one by one.
* **`Booking.calculations_correspond`**: the two passes are of the same units, in the same order.
* **`Booking.calculations_eased`**: under early release each unit is released no later.
-/

namespace Custody

open Custody.Calendar

variable {config : Config} {inputs : Inputs} {assumption : Assumption} {b : Booking}

namespace Booking

/-! ## One pass -/

/-- The entry of a unit on its tracks. -/
def entryOf (config : Config) (b : Booking) (inputs : Inputs) (assumption : Assumption)
    (unit : Sentence) : Answered TimelineEntry :=
  unit.classify config inputs assumption >>= TimelineEntry.ofUnit b.returnToCustody

theorem entryOf_isOf {unit : Sentence} {entry : TimelineEntry}
    (h : b.entryOf config inputs assumption unit = .ok entry) :
    entry.IsOf config inputs assumption unit := by
  obtain ⟨classified, hclassified, hplaced⟩ := Answered.bind_eq_ok.mp h
  obtain ⟨rfl, hsentenced, _⟩ := TimelineEntry.ofUnit_eq_ok hplaced
  exact ⟨Sentence.classify_classifiedAs hclassified, hsentenced⟩

theorem recallAnchor_entryOf {unit : Sentence} {entry : TimelineEntry}
    (h : b.entryOf config inputs assumption unit = .ok entry) :
    entry.recallAnchor = if entry.unit.recallType.isRecall then b.returnToCustody else none := by
  obtain ⟨classified, _, hplaced⟩ := Answered.bind_eq_ok.mp h
  obtain ⟨rfl, _, hanchor, _⟩ := TimelineEntry.ofUnit_eq_ok hplaced
  exact hanchor

theorem sentencedAt_le_recallAnchor {unit : Sentence} {entry : TimelineEntry}
    (h : b.entryOf config inputs assumption unit = .ok entry) {r : Date}
    (hr : entry.recallAnchor = some r) : entry.sentencedAt ≤ r := by
  obtain ⟨_, _, hplaced⟩ := Answered.bind_eq_ok.mp h
  obtain ⟨_, _, _, hback⟩ := TimelineEntry.ofUnit_eq_ok hplaced
  exact hback r hr

/-- **What a pass is made of.** The units of the booking, an entry for each, and a calculation for
each entry in order. -/
theorem pass_eq_ok {p : Pass} :
    b.pass config inputs assumption = .ok p
      ↔ b.sentences ≠ [] ∧ ∃ units entries, Sentence.assemble b.sentences = .ok units
        ∧ units.mapM (b.entryOf config inputs assumption) = .ok entries
        ∧ p.units = (entries.mergeSort TimelineEntry.notAfter).map TimelineEntry.unit
        ∧ (entries.mergeSort TimelineEntry.notAfter).mapM (calculateUnit config inputs b)
          = .ok p.calculations
        ∧ Outcome.ofUnits p.calculations = .ok p.outcome := by
  have hempty : b.sentences.isEmpty = true ↔ b.sentences = [] := List.isEmpty_iff
  unfold pass
  by_cases hnil : b.sentences = []
  · rw [hempty.mpr hnil]
    constructor
    · intro h
      cases h
    · intro h
      exact absurd hnil h.1
  · rw [if_neg (mt hempty.mp hnil)]
    -- to classify all and then to place all is to do both for each
    have hplaced (units : List Sentence) (entries : List TimelineEntry) :
        units.mapM (b.entryOf config inputs assumption) = .ok entries
          ↔ ∃ classified, units.mapM (Sentence.classify config inputs assumption) = .ok classified
            ∧ classified.mapM (TimelineEntry.ofUnit b.returnToCustody) = .ok entries :=
      Answered.mapM_bind_eq_ok
    simp only [hplaced, Answered.bind_eq_ok, Answered.pure_eq_ok, timeline_eq_ok]
    constructor
    · rintro ⟨units, hunits, classified, hclassified, _, ⟨entries, hentries, rfl⟩,
        calculations, hcalculations, outcome, houtcome, rfl⟩
      exact ⟨hnil, units, entries, hunits, ⟨classified, hclassified, hentries⟩, rfl,
        hcalculations, houtcome⟩
    · rintro ⟨_, units, entries, hunits, ⟨classified, hclassified, hentries⟩, hsorted,
        hcalculations, houtcome⟩
      refine ⟨units, hunits, classified, hclassified, _, ⟨entries, hentries, rfl⟩,
        p.calculations, hcalculations, p.outcome, houtcome, ?_⟩
      rw [← hsorted]

/-- **Units and calculations of a pass, one by one.** Each calculation is of the entry of a unit
that is covered. -/
theorem unit_of_pass {p : Pass} (h : b.pass config inputs assumption = .ok p) :
    List.Forall₂ (fun unit c => ∃ covered entry, covered.checkCovered = .ok ()
        ∧ b.entryOf config inputs assumption covered = .ok entry ∧ unit = entry.unit
        ∧ b.calculateUnit config inputs entry = .ok c)
      p.units p.calculations := by
  obtain ⟨_, units, entries, hunits, hentries, hsorted, hcalculations, _⟩ := pass_eq_ok.mp h
  rw [Answered.mapM_eq_ok] at hentries hcalculations
  -- sorting keeps the entries, each of which came from a unit that is covered
  have hplaced : ∀ entry ∈ entries.mergeSort TimelineEntry.notAfter,
      ∃ covered, covered.checkCovered = .ok ()
        ∧ b.entryOf config inputs assumption covered = .ok entry := by
    intro entry hentry
    obtain ⟨unit, hunit, hof⟩ :=
      Answered.exists_of_mem_right hentries (List.mem_mergeSort.mp hentry)
    exact ⟨unit, Sentence.assemble_covered hunits unit hunit, hof⟩
  rw [hsorted, List.forall₂_map_left_iff]
  refine ((List.forall₂_and_left _ _).mpr ⟨hplaced, hcalculations⟩).imp fun entry c hboth => ?_
  obtain ⟨⟨covered, hcovered, hof⟩, hcalculated⟩ := hboth
  exact ⟨covered, entry, hcovered, hof, rfl, hcalculated⟩

/-- A calculation is of a unit that is covered. -/
theorem exists_of_mem_calculations {p : Pass} (h : b.pass config inputs assumption = .ok p)
    {c : UnitCalculation} (hc : c ∈ p.calculations) :
    ∃ unit entry, unit.checkCovered = .ok ()
      ∧ TimelineEntry.IsOf config inputs assumption unit entry
      ∧ b.calculateUnit config inputs entry = .ok c := by
  obtain ⟨_, _, unit, entry, hcovered, hof, _, hcalculated⟩ :=
    Answered.exists_of_mem_right (unit_of_pass h) hc
  exact ⟨unit, entry, hcovered, entryOf_isOf hof, hcalculated⟩

theorem inStep_of_mem_calculations {p : Pass} (h : b.pass config inputs assumption = .ok p) :
    ∀ c ∈ p.calculations, c.InStep := by
  intro c hc
  obtain ⟨_, _, _, _, hcalculated⟩ := exists_of_mem_calculations h hc
  exact inStep_of_calculateUnit hcalculated

theorem ofUnits_of_pass {p : Pass} (h : b.pass config inputs assumption = .ok p) :
    Outcome.ofUnits p.calculations = .ok p.outcome := by
  obtain ⟨_, _, _, _, _, _, _, houtcome⟩ := pass_eq_ok.mp h
  exact houtcome

theorem pass_extracted {p : Pass} (h : b.pass config inputs assumption = .ok p) :
    Outcome.Extracted p.calculations p.outcome :=
  Outcome.ofUnits_extracted (ofUnits_of_pass h)

/-- **Curfew and removal are before release within a pass.** A unit that has such a date is
released, so there is a release that the date has been compared with. -/
theorem lt_release_of_isEligibility {p : Pass} (h : b.pass config inputs assumption = .ok p)
    {kind : DateKind} (hkind : kind.IsEligibility) {d : Date} (hd : p.outcome.date? kind = some d) :
    ∃ j r, p.outcome.ReleasedOn j r ∧ d.day < r.day := by
  have hextracted := pass_extracted h
  have hunits := inStep_of_mem_calculations h
  obtain ⟨hlatest, hlt⟩ := hextracted.eligibility kind hkind d hd
  rcases hextracted.release with ⟨hnone, _⟩ | ⟨j, r, hr, hreleased⟩
  · -- without a release no unit would have the date
    refine absurd ((Outcome.latest?_eq_none_iff hunits).mpr fun c hc => ?_) hlatest
    obtain ⟨_, _, _, hof, hcalculated⟩ := exists_of_mem_calculations h hc
    obtain ⟨_, track, _, _, _, htrack, _, _, heligible⟩ := calculateUnit_dated hcalculated
    rw [UnitCalculation.dateAmong?_singleton]
    by_contra hdate
    refine heligible (fun hrecall => ?_) kind hkind hdate ?_
    · exact hof.classified.isRecall_of_track (hrecall ▸ htrack)
    · have hunit := (Outcome.release?_eq_none_iff hunits).mp hnone c hc
      rw [UnitCalculation.releaseDate?, hunit .crd (.inl rfl), hunit .ard (.inr rfl)]
      rfl
  · exact ⟨j, r.releaseDate, hreleased, hlt (j, r) hr⟩

/-! ## Both passes -/

/-- The answer is the merge of the two passes in the tranche that they lead to. -/
theorem calculate_eq_ok {o : Outcome} (h : b.calculate config inputs = .ok o) :
    ∃ standard early tranche, b.pass config inputs .standard = .ok standard
      ∧ b.pass config inputs .early = .ok early
      ∧ Outcome.allocateTranche config early.units standard.outcome = .ok tranche
      ∧ o = Outcome.mergeEarly config standard.outcome early.outcome tranche := by
  simp only [calculate, Answered.bind_eq_ok, Answered.pure_eq_ok] at h
  obtain ⟨standard, hstandard, early, hearly, tranche, htranche, rfl⟩ := h
  exact ⟨standard, early, tranche, hstandard, hearly, htranche, rfl⟩

/-- **The entries of the two passes correspond one by one**: each is of the same unit of the
booking, and both passes have them in the same order. -/
theorem entries_correspond {standard early : Pass}
    (hs : b.pass config inputs .standard = .ok standard)
    (he : b.pass config inputs .early = .ok early) :
    ∃ xs ys, standard.units = xs.map TimelineEntry.unit ∧ early.units = ys.map TimelineEntry.unit
      ∧ List.Forall₂ (fun x y => ∃ unit, unit.checkCovered = .ok ()
          ∧ b.entryOf config inputs .standard unit = .ok x
          ∧ b.entryOf config inputs .early unit = .ok y) xs ys
      ∧ List.Forall₂ (fun x c => b.calculateUnit config inputs x = .ok c) xs standard.calculations
      ∧ List.Forall₂ (fun y c => b.calculateUnit config inputs y = .ok c) ys
        early.calculations := by
  obtain ⟨_, units, xs, hunits, hxs, hstandard, hcs, _⟩ := pass_eq_ok.mp hs
  obtain ⟨_, units', ys, hunits', hys, hearly, hcs', _⟩ := pass_eq_ok.mp he
  rw [hunits] at hunits'
  cases hunits'
  rw [Answered.mapM_eq_ok] at hxs hys hcs hcs'
  refine ⟨_, _, hstandard, hearly, ?_, hcs, hcs'⟩
  -- the order cannot tell the two entries of a unit apart
  have horder : ∀ x y x' y' : TimelineEntry,
      (∃ unit ∈ units, b.entryOf config inputs .standard unit = .ok x
        ∧ b.entryOf config inputs .early unit = .ok y) →
      (∃ unit ∈ units, b.entryOf config inputs .standard unit = .ok x'
        ∧ b.entryOf config inputs .early unit = .ok y') →
      x.notAfter x' = y.notAfter y' := by
    rintro x y x' y' ⟨_, _, hx, hy⟩ ⟨_, _, hx', hy'⟩
    exact TimelineEntry.notAfter_eq (entryOf_isOf hx) (entryOf_isOf hy) (entryOf_isOf hx')
      (entryOf_isOf hy')
  have hsorted := Answered.forall₂_mergeSort horder (Answered.forall₂_of_common hxs hys)
  refine hsorted.imp fun x y hxy => ?_
  obtain ⟨unit, hunit, hx, hy⟩ := hxy
  exact ⟨unit, Sentence.assemble_covered hunits unit hunit, hx, hy⟩

theorem calculations_correspond {standard early : Pass}
    (hs : b.pass config inputs .standard = .ok standard)
    (he : b.pass config inputs .early = .ok early) :
    List.Forall₂ (fun c c' => ∃ unit x y, unit.checkCovered = .ok ()
        ∧ b.entryOf config inputs .standard unit = .ok x
        ∧ b.entryOf config inputs .early unit = .ok y
        ∧ b.calculateUnit config inputs x = .ok c ∧ b.calculateUnit config inputs y = .ok c')
      standard.calculations early.calculations := by
  obtain ⟨xs, ys, _, _, hxy, hcs, hcs'⟩ := entries_correspond hs he
  have hfirst := Answered.forall₂_of_common hxy hcs
  refine (Answered.forall₂_of_common hfirst hcs').imp fun c c' hboth => ?_
  obtain ⟨y, _, ⟨x, _, ⟨unit, hcovered, hx, hy⟩, hc⟩, hc'⟩ := hboth
  exact ⟨unit, x, y, hcovered, hx, hy, hc, hc'⟩

theorem appliedTo_eq {unit : Sentence} {x y : TimelineEntry}
    (hs : TimelineEntry.IsOf config inputs .standard unit x)
    (he : TimelineEntry.IsOf config inputs .early unit y) (adjustments : Adjustments) :
    adjustments.appliedTo x.unit = adjustments.appliedTo y.unit := by
  have huntracked := hs.classified.untracked_eq.trans he.classified.untracked_eq.symm
  have hdate : x.unit.sentencedAt? = y.unit.sentencedAt? := by
    rw [← Sentence.sentencedAt?_untracked, huntracked, Sentence.sentencedAt?_untracked]
  have hsequences : x.unit.sequences = y.unit.sequences := by
    rw [← Sentence.sequences_untracked, huntracked, Sentence.sequences_untracked]
  rw [Adjustments.appliedTo, Adjustments.appliedTo, hdate, hsequences]

/-- **Under early release a unit is released no later.** -/
theorem calculateUnit_eased {unit : Sentence} {x y : TimelineEntry} {c c' : UnitCalculation}
    (hpoints : config.releasePoints.AreFractions)
    (hearly : config.releasePoints.fraction .sdsEarly ≤ config.releasePoints.fraction .sdsStandard)
    (hcovered : unit.checkCovered = .ok ()) (hx : TimelineEntry.IsOf config inputs .standard unit x)
    (hy : TimelineEntry.IsOf config inputs .early unit y)
    (hc : b.calculateUnit config inputs x = .ok c)
    (hc' : b.calculateUnit config inputs y = .ok c') : UnitCalculation.Eased c c' := by
  -- one unit under two assumptions: what it is adjusted by is the same, and so is its layout
  obtain ⟨adjustments, t, a, m, happlied, ht, hm, hdated, _⟩ := calculateUnit_dated hc
  obtain ⟨adjustments', t', a', m', happlied', ht', hm', hdated', _⟩ := calculateUnit_dated hc'
  rw [appliedTo_eq hx hy, happlied'] at happlied
  cases happlied
  have htracks := hx.classified.tracks_agree hy.classified hcovered ht ht'
  obtain ⟨hsentenced, hkind, hdays⟩ :=
    hm.eased hpoints hearly hx.classified hy.classified htracks hm'
  exact hdated.eased hdated' (Track.recall_iff_of_agree htracks) hsentenced hkind hdays

/-- **Under early release each unit is released no later.** -/
theorem calculations_eased {standard early : Pass} (hpoints : config.releasePoints.AreFractions)
    (hearly : config.releasePoints.fraction .sdsEarly ≤ config.releasePoints.fraction .sdsStandard)
    (hs : b.pass config inputs .standard = .ok standard)
    (he : b.pass config inputs .early = .ok early) :
    List.Forall₂ UnitCalculation.Eased standard.calculations early.calculations := by
  refine (calculations_correspond hs he).imp fun c c' hboth => ?_
  obtain ⟨unit, x, y, hcovered, hx, hy, hc, hc'⟩ := hboth
  exact calculateUnit_eased hpoints hearly hcovered (entryOf_isOf hx) (entryOf_isOf hy) hc hc'

/-- **Under early release the booking is released no later**, if it is released at all. -/
theorem releases_eased {standard early : Pass} (hpoints : config.releasePoints.AreFractions)
    (hearly : config.releasePoints.fraction .sdsEarly ≤ config.releasePoints.fraction .sdsStandard)
    (hs : b.pass config inputs .standard = .ok standard)
    (he : b.pass config inputs .early = .ok early) :
    (∀ kind : DateKind, kind.IsRelease →
        standard.outcome.date? kind = none ∧ early.outcome.date? kind = none)
      ∨ ∃ j s k e, standard.outcome.ReleasedOn j s ∧ early.outcome.ReleasedOn k e
        ∧ e.day ≤ s.day := by
  have hrel := Outcome.release?_le_of_eased (inStep_of_mem_calculations hs)
    (inStep_of_mem_calculations he) (calculations_eased hpoints hearly hs he)
  rcases (pass_extracted hs).release with ⟨hnone, hdates⟩ | ⟨j, s, hstandard, hreleased⟩
  -- the passes have a release or none together
  · rcases (pass_extracted he).release with ⟨_, hdates'⟩ | ⟨k, e, hearly, _⟩
    · exact .inl fun kind hkind => ⟨hdates kind hkind, hdates' kind hkind⟩
    · rw [hnone, hearly] at hrel
      cases hrel
  · rcases (pass_extracted he).release with ⟨hnone, _⟩ | ⟨k, e, hearly, hreleased'⟩
    · rw [hstandard, hnone] at hrel
      cases hrel
    · rw [hstandard, hearly] at hrel
      cases hrel with
      | some hle => exact .inr ⟨j, s.releaseDate, k, e.releaseDate, hreleased, hreleased', hle⟩

end Booking

end Custody
