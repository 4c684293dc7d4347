import Custody.Proofs.Booking.MergedRelease
import Custody.Proofs.Outcome.MergedEntries
import Custody.Proofs.Outcome.Reordered
import Custody.Proofs.Outcome.Tranche
import Custody.Proofs.Sentence.Reordered

/-!
# Sentences of a booking in another order

The order in which sentences were recorded comes through to the units, and from there to the entries
that the timeline cannot tell apart. It does not come through to dates: both passes have the same
units, and the same dates, in whatever order. Where no two sentences are found in the same place of
the record the timeline itself is the same, and so is the answer in full.

* **`mergeSort_entries_eq`**: the timeline of a record with one sentence in each place.
* **`pass_of_perm`**: a pass over the sentences in another order.
* **`calculate_perm`**: the answer for the sentences in another order.
-/

namespace Custody

open Custody.Calendar

namespace TimelineEntry

/-- The timeline can tell entries of different places apart. -/
theorem sequence_eq_of_notAfter {a b : TimelineEntry} (hab : a.notAfter b) (hba : b.notAfter a) :
    b.unit.sequence = a.unit.sequence := by
  rw [notAfter_iff] at hab hba
  rw [Prod.ext_iff, ← UInt32.toNat_inj, ← UInt32.toNat_inj]
  omega

theorem level_eq {entries entries' : List TimelineEntry} (h : ∀ place,
    entries.filter (·.unit.sequence = place) = entries'.filter (·.unit.sequence = place))
    (a : TimelineEntry) : Sorting.level notAfter a entries = Sorting.level notAfter a entries' := by
  -- a level is part of the entries of one place
  have hlevel (xs : List TimelineEntry) : Sorting.level notAfter a xs
      = Sorting.level notAfter a (xs.filter (·.unit.sequence = a.unit.sequence)) := by
    unfold Sorting.level
    rw [List.filter_filter]
    apply List.filter_congr
    intro b _
    cases hsame : notAfter a b && notAfter b a with
    | false => rfl
    | true =>
      rw [Bool.and_eq_true] at hsame
      rw [decide_eq_true (sequence_eq_of_notAfter hsame.1 hsame.2)]
      rfl
  rw [hlevel entries, hlevel entries', h]

end TimelineEntry

namespace Booking

variable {config : Config} {inputs : Inputs} {assumption : Assumption} {b : Booking}
variable {sentences : List Sentence} {p : Pass}

/-! ## The timeline -/

theorem sequence_entryOf {unit : Sentence} {entry : TimelineEntry}
    (h : b.entryOf config inputs assumption unit = .ok entry) :
    entry.unit.sequence = unit.sequence := by
  rw [← Sentence.sequence_untracked, (entryOf_isOf h).classified.untracked_eq,
    Sentence.sequence_untracked]

/-- **A record with one sentence in each place has one timeline.** -/
theorem mergeSort_entries_eq {units units' : List Sentence} {entries entries' : List TimelineEntry}
    (hperm : b.sentences.Perm sentences) (hnodup : (b.sentences.map Sentence.sequence).Nodup)
    (hunits : Sentence.assemble b.sentences = .ok units)
    (hunits' : Sentence.assemble sentences = .ok units')
    (hentries : units.mapM (b.entryOf config inputs assumption) = .ok entries)
    (hentries' : units'.mapM (b.entryOf config inputs assumption) = .ok entries') :
    entries.mergeSort TimelineEntry.notAfter = entries'.mergeSort TimelineEntry.notAfter := by
  apply Sorting.mergeSort_eq_of_level_eq TimelineEntry.notAfter_trans TimelineEntry.notAfter_total
  apply TimelineEntry.level_eq
  intro place
  have hplace : ∀ unit entry, b.entryOf config inputs assumption unit = .ok entry →
      decide (unit.sequence = place) = decide (entry.unit.sequence = place) := by
    intro unit entry h
    rw [sequence_entryOf h]
  have hkept := Answered.mapM_filter hplace hentries
  have hkept' := Answered.mapM_filter hplace hentries'
  rw [Sentence.filter_sequence_assemble hperm hnodup hunits hunits', hkept'] at hkept
  exact (Except.ok.inj hkept).symm

/-! ## A pass -/

theorem inOrder_of_pass (h : b.pass config inputs assumption = .ok p) :
    Outcome.InOrder p.units := by
  obtain ⟨_, units, entries, _, hentries, hunits, _, _⟩ := pass_eq_ok.mp h
  have hsorted := List.pairwise_mergeSort TimelineEntry.notAfter_trans TimelineEntry.notAfter_total
    entries
  rw [Answered.mapM_eq_ok] at hentries
  have hdate : ∀ entry ∈ entries.mergeSort TimelineEntry.notAfter,
      entry.unit.sentencedAt? = some entry.sentencedAt := by
    intro entry hentry
    obtain ⟨unit, _, hof⟩ := Answered.exists_of_mem_right hentries (List.mem_mergeSort.mp hentry)
    exact (entryOf_isOf hof).sentencedAt
  unfold Outcome.InOrder
  rw [hunits, List.pairwise_map]
  refine hsorted.imp_of_mem fun {e e'} he he' hnotAfter x y hx hy => ?_
  rw [hdate e he] at hx
  rw [hdate e' he'] at hy
  cases hx
  cases hy
  rw [TimelineEntry.notAfter_iff] at hnotAfter
  omega

/-- Every unit of a pass is laid out along the calendar. -/
theorem exists_aggregate_of_pass (h : b.pass config inputs assumption = .ok p) :
    ∀ u ∈ p.units, ∃ a, u.aggregate = .ok a := by
  obtain ⟨_, _, entries, _, _, hunits, hcalculations, _⟩ := pass_eq_ok.mp h
  intro u hu
  rw [hunits] at hu
  obtain ⟨entry, hentry, rfl⟩ := List.mem_map.mp hu
  rw [Answered.mapM_eq_ok] at hcalculations
  obtain ⟨c, _, hc⟩ := Answered.exists_of_mem_right hcalculations.flip hentry
  obtain ⟨_, _, a, _, _, _, hm, _⟩ := calculateUnit_dated hc
  exact ⟨a, hm.aggregate⟩

/-- **A pass over the sentences in another order** has the same units and the same dates. It is the
same pass if no two sentences are found in the same place. -/
theorem pass_of_perm (hperm : b.sentences.Perm sentences)
    (h : b.pass config inputs assumption = .ok p) :
    ∃ p', { b with sentences }.pass config inputs assumption = .ok p' ∧ p.units.Perm p'.units
      ∧ p.outcome.dates = p'.outcome.dates ∧ p.outcome.otherDates = p'.outcome.otherDates
      ∧ p.outcome.effectiveLength = p'.outcome.effectiveLength
      ∧ ((b.sentences.map Sentence.sequence).Nodup → p = p') := by
  obtain ⟨hne, units, entries, hassemble, hentries, hunits, hcalculations, houtcome⟩ :=
    pass_eq_ok.mp h
  obtain ⟨units', hassemble', hperm₁⟩ := Sentence.assemble_perm hassemble hperm
  obtain ⟨entries', hentries', hperm₂⟩ := Answered.mapM_perm hperm₁ hentries
  have hsorted : (entries.mergeSort TimelineEntry.notAfter).Perm
      (entries'.mergeSort TimelineEntry.notAfter) :=
    (List.mergeSort_perm _ _).trans (hperm₂.trans (List.mergeSort_perm _ _).symm)
  obtain ⟨calculations, hcalculations', hperm₃⟩ := Answered.mapM_perm hsorted hcalculations
  obtain ⟨outcome, houtcome', hdates, hother, hlength⟩ := Outcome.ofUnits_perm hperm₃ houtcome
  refine ⟨⟨outcome, (entries'.mergeSort TimelineEntry.notAfter).map TimelineEntry.unit,
    calculations⟩, pass_eq_ok.mpr ⟨fun hnil => hne ?_, units', entries', hassemble', hentries',
    rfl, hcalculations', houtcome'⟩, ?_, hdates, hother, hlength, fun hnodup => ?_⟩
  · have hnil : sentences = [] := hnil
    rw [hnil] at hperm
    exact hperm.eq_nil
  · rw [hunits]
    exact hsorted.map _
  · -- one timeline has one list of calculations, and that has one outcome
    have htimeline := mergeSort_entries_eq hperm hnodup hassemble hassemble' hentries hentries'
    rw [← htimeline, hcalculations] at hcalculations'
    have hsame := Except.ok.inj hcalculations'
    rw [← hsame, houtcome] at houtcome'
    rw [← hsame, ← Except.ok.inj houtcome', ← htimeline, ← hunits]

/-! ## The answer -/

theorem calculate_of_passes {standard early : Pass} {tranche : Tranche}
    (hs : b.pass config inputs .standard = .ok standard)
    (he : b.pass config inputs .early = .ok early)
    (ht : Outcome.allocateTranche config early.units standard.outcome = .ok tranche) :
    b.calculate config inputs
      = .ok (Outcome.mergeEarly config standard.outcome early.outcome tranche) := by
  unfold calculate
  rw [hs, he]
  show (Outcome.allocateTranche config early.units standard.outcome >>= _) = _
  rw [ht]
  rfl

theorem calculate_of_perm {o : Outcome} (hperm : b.sentences.Perm sentences)
    (h : b.calculate config inputs = .ok o) :
    ∃ o', { b with sentences }.calculate config inputs = .ok o' ∧ o.dates = o'.dates
      ∧ o.otherDates = o'.otherDates ∧ o.effectiveLength = o'.effectiveLength
      ∧ o.tranche = o'.tranche ∧ ((b.sentences.map Sentence.sequence).Nodup → o = o') := by
  obtain ⟨standard, early, tranche, hs, he, ht, rfl⟩ := calculate_eq_ok h
  obtain ⟨standard', hs', _, hdates, hother, hlength, hsame⟩ := pass_of_perm hperm hs
  obtain ⟨early', he', hunits, hdates', _, _, hsame'⟩ := pass_of_perm hperm he
  have hrelease : standard.outcome.releaseDate? = standard'.outcome.releaseDate? := by
    unfold Outcome.releaseDate? Outcome.date?
    rw [hdates]
  -- the tranche depends on the release and on the units as a set
  have ht' := Outcome.allocateTranche_perm hrelease (inOrder_of_pass he) (inOrder_of_pass he')
    (exists_aggregate_of_pass he) hunits ht
  refine ⟨_, calculate_of_passes hs' he' ht', ?_, ?_, ?_, ?_, fun hnodup => ?_⟩
  · exact Outcome.dates_mergeEarly_congr hdates hdates' (pass_extracted he).inStep
      (pass_extracted he').inStep
  · rw [Outcome.otherDates_mergeEarly, Outcome.otherDates_mergeEarly, hother]
  · rw [Outcome.effectiveLength_mergeEarly, Outcome.effectiveLength_mergeEarly, hlength]
  · rw [Outcome.tranche_mergeEarly, Outcome.tranche_mergeEarly]
  · rw [hsame hnodup, hsame' hnodup]

/-- **The order of sentences does not matter.** There is an answer for sentences in one order if
there is one for them in another. It has the same dates, effective length and tranche, and it is the
same in full if no two sentences are found in the same place of the record. -/
theorem calculate_perm (config : Config) (inputs : Inputs) {b : Booking} {sentences : List Sentence}
    (hperm : b.sentences.Perm sentences) :
    ((∃ o, b.calculate config inputs = .ok o)
        ↔ ∃ o, { b with sentences }.calculate config inputs = .ok o)
      ∧ ∀ o o', b.calculate config inputs = .ok o →
        { b with sentences }.calculate config inputs = .ok o' →
        o.dates = o'.dates ∧ o.otherDates = o'.otherDates
          ∧ o.effectiveLength = o'.effectiveLength ∧ o.tranche = o'.tranche
          ∧ ((b.sentences.map Sentence.sequence).Nodup → o = o') := by
  refine ⟨⟨fun ⟨o, h⟩ => ?_, fun ⟨o, h⟩ => ?_⟩, fun o o' h h' => ?_⟩
  · obtain ⟨o', h', _⟩ := calculate_of_perm hperm h
    exact ⟨o', h'⟩
  · have hback : ({ b with sentences } : Booking).sentences.Perm b.sentences := hperm.symm
    obtain ⟨o', h', _⟩ := calculate_of_perm hback h
    exact ⟨o', h'⟩
  · obtain ⟨o'', h'', hrest⟩ := calculate_of_perm hperm h
    rw [h'] at h''
    cases h''
    exact hrest

/-- A sentence and the breach that was recorded after it give the same answer when the breach is
recorded first. -/
theorem calculate_perm_breach :
    ∃ o, breachAfterSentence.calculate EnglandAndWales.config {} = .ok o
      ∧ ({ breachAfterSentence with sentences := breachAfterSentence.sentences.reverse }
        : Booking).calculate EnglandAndWales.config {} = .ok o
      ∧ (breachAfterSentence.sentences.map Sentence.sequence).Nodup
      ∧ o.date? .crd = some (EnglandAndWales.on 2025 2 28)
      ∧ o.date? .ard = some (EnglandAndWales.on 2025 1 29) := by
  obtain ⟨o, ho, hcrd, hard⟩ := breachAfterSentence_releases
  have hperm := (List.reverse_perm breachAfterSentence.sentences).symm
  have hnodup : (breachAfterSentence.sentences.map Sentence.sequence).Nodup := by decide +kernel
  obtain ⟨hiff, hequal⟩ := calculate_perm EnglandAndWales.config {} hperm
  obtain ⟨o', ho'⟩ := hiff.mp ⟨o, ho⟩
  obtain ⟨_, _, _, _, hsame⟩ := hequal o o' ho ho'
  rw [← hsame hnodup] at ho'
  exact ⟨o, ho, ho', hnodup, hcrd, hard⟩

end Booking

end Custody
