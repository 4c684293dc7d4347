import Custody.Proofs.Booking.MergedRelease
import Custody.Proofs.Outcome.MergedEntries
import Custody.Proofs.Unit.Explained

/-!
# The dates of a booking are explained

What a booking has of a kind is a breakdown of one of its units, at most put back to a later
release, or in a tranche a date that is held until it starts. All of these are consistent, and each
is recorded together with its date. So is every step of the merge, and the dates stay explained.

* **`Outcome.recordAll_explained`**: what is recorded one after the other is explained.
* **`Outcome.ofUnits_explained`**, **`Outcome.mergeEarly_explained`**: the dates of a pass and of
  the merge.
* **`Booking.answers_explained`**: every unit, both passes and the answer.
-/

namespace Custody

open Custody.Calendar

namespace Outcome

variable {units : List UnitCalculation} {config : Config}

/-! ## Breakdowns of the units -/

theorem latest?_consistent (hunits : ∀ c ∈ units, c.Explained) {kinds : List DateKind}
    {b : Breakdown} (h : latest? kinds units = some b) : b.Consistent := by
  obtain ⟨hmem, _⟩ := latestOf?_eq_some h
  obtain ⟨c, hc, hb⟩ := List.mem_filterMap.mp hmem
  obtain ⟨kind, _, hfound⟩ := List.exists_of_findSome?_eq_some hb
  exact (hunits c hc).consistent kind b hfound

theorem latestRaised?_consistent (hunits : ∀ c ∈ units, c.Explained) {kind : DateKind} {rule : Rule}
    {b : Breakdown} (h : latestRaised? kind rule units = some b) : b.Consistent := by
  obtain ⟨latest, hlatest, rfl⟩ := Option.map_eq_some_iff.mp h
  have hconsistent := latest?_consistent hunits hlatest
  -- putting a date back is listed with its rule
  split
  · split
    · exact hconsistent.raisedTo _ rule
    · exact hconsistent
  · exact hconsistent

theorem release?_consistent (hunits : ∀ c ∈ units, c.Explained) {kind : DateKind} {b : Breakdown}
    (h : release? units = some (kind, b)) : b.Consistent :=
  latest?_consistent hunits (release?_eq_some h).2.1

/-! ## Recording -/

theorem recordIfSome_explained {o : Outcome} (h : Custody.Explained o.dates o.breakdowns)
    {kind : DateKind} (hkind : kind ≠ .esed) {b : Option Breakdown}
    (hb : ∀ found, b = some found → found.Consistent) :
    Custody.Explained (o.recordIfSome kind b).dates (o.recordIfSome kind b).breakdowns := by
  cases b with
  | none => exact h
  | some found => exact h.insert hkind (hb found rfl)

/-- **What is recorded one after the other is explained**, by induction on what is recorded. -/
theorem recordAll_explained {entries : List (DateKind × Option Breakdown)}
    (hentries : ∀ entry ∈ entries, entry.1 ≠ .esed
      ∧ ∀ b, entry.2 = some b → b.Consistent) {o : Outcome}
    (h : Custody.Explained o.dates o.breakdowns) :
    Custody.Explained (o.recordAll entries).dates (o.recordAll entries).breakdowns := by
  induction entries generalizing o with
  | nil => exact h
  | cons entry entries ih =>
    rw [List.forall_mem_cons] at hentries
    exact ih hentries.2 (recordIfSome_explained h hentries.1.1 hentries.1.2)

theorem recordExpiry_explained {o : Outcome} (h : Custody.Explained o.dates o.breakdowns)
    {expiry : Breakdown} (hexpiry : expiry.Consistent) {licence : Option Breakdown}
    (hlicence : ∀ b, licence = some b → b.Consistent) :
    Custody.Explained (o.recordExpiry expiry licence).dates
      (o.recordExpiry expiry licence).breakdowns := by
  unfold recordExpiry
  split
  · next licence =>
    split
    · exact h.insert (by decide) hexpiry
    · exact (h.insert (by decide) hexpiry).insert (by decide) (hlicence licence rfl)
  · exact h.insert (by decide) hexpiry

theorem recordRelease_explained {o : Outcome} (h : Custody.Explained o.dates o.breakdowns)
    {release : Option (DateKind × Breakdown)}
    (hrelease : ∀ kind b, release = some (kind, b) → kind ≠ .esed ∧ b.Consistent) :
    Custody.Explained (o.recordRelease release).dates (o.recordRelease release).breakdowns := by
  cases release with
  | none => exact h
  | some r =>
    obtain ⟨hkind, hb⟩ := hrelease r.1 r.2 rfl
    exact h.insert hkind hb

/-! ## A pass -/

theorem otherEntries_consistent (hunits : ∀ c ∈ units, c.Explained) (expiry : Breakdown) :
    ∀ entry ∈ otherEntries expiry units, entry.1 ≠ .esed
      ∧ ∀ b, entry.2 = some b → b.Consistent := by
  intro entry hentry
  constructor
  · have hkind : entry.1 ∈ (otherEntries expiry units).map Prod.fst := List.mem_map_of_mem hentry
    rw [map_fst_otherEntries] at hkind
    -- the kinds are listed, and a date for comparison is not among them
    revert hkind
    generalize entry.1 = kind
    revert kind
    decide
  · intro b hb
    simp only [otherEntries, List.mem_cons, List.not_mem_nil, or_false] at hentry
    -- each entry is a breakdown of some unit, put back or left out at most
    rcases hentry with rfl | rfl | rfl | rfl | rfl | rfl
    · exact latestRaised?_consistent hunits hb
    · exact latestRaised?_consistent hunits (beforeRelease_eq_some hb).1
    · exact latestRaised?_consistent hunits (beforeRelease_eq_some hb).1
    · exact latest?_consistent hunits (beforeRelease_eq_some hb).1
    · exact latest?_consistent hunits (Option.filter_eq_some_iff.mp hb).1
    · exact latest?_consistent hunits hb

/-- **The dates of a pass are explained.** -/
theorem ofUnits_explained (hunits : ∀ c ∈ units, c.Explained) {o : Outcome}
    (h : ofUnits units = .ok o) : o.Explained := by
  obtain ⟨_, expiry, esed, _, _, hexpiry, _, _, rfl⟩ := ofUnits_eq_ok.mp h
  refine ⟨?_, fun kind => ?_⟩
  · show Custody.Explained (ofBreakdowns expiry units).dates (ofBreakdowns expiry units).breakdowns
    have hlicence : ∀ b, latest? [.sled, .led] units = some b → b.Consistent :=
      fun b hb => latest?_consistent hunits hb
    -- expiry is recorded first, then release, then all other kinds
    have hstart := recordExpiry_explained (o := Outcome.empty) Explained.empty
      (latest?_consistent hunits hexpiry) hlicence
    rw [ofBreakdowns_eq]
    refine recordAll_explained (otherEntries_consistent hunits expiry)
      (recordRelease_explained hstart fun kind b hrelease =>
        ⟨?_, release?_consistent hunits hrelease⟩)
    rcases (release?_eq_some hrelease).1 with rfl | rfl <;> decide
  · show ((ofBreakdowns expiry units).otherDates.insert .esed esed).get? kind ≠ none ↔ _
    rw [otherDates_ofBreakdowns, Table.get?_insert, Table.get?_empty]
    split <;> simp_all

/-! ## The merge -/

theorem replacement?_consistent {commencement : Date} {standard early : Outcome} {kind : DateKind}
    (hearly : early.Explained) {b : Breakdown}
    (h : replacement? commencement standard early kind = some b) : b.Consistent := by
  simp only [replacement?] at h
  -- the early date itself, or one that is held until commencement
  split at h
  · next e he =>
    split at h
    · cases h
      exact hearly.dates.consistent kind _ he
    · split at h
      · cases h
      · cases h
        exact Breakdown.consistent_heldUntil commencement _
  · split at h
    · cases h
    · obtain ⟨d, _, rfl⟩ := Option.map_eq_some_iff.mp h
      exact Breakdown.consistent_heldUntil commencement d

/-- **The dates of the merge are explained**, whatever the tranche. -/
theorem mergeEarly_explained {standard early : Outcome} (hstandard : standard.Explained)
    (hearly : early.Explained) (tranche : Tranche) :
    (mergeEarly config standard early tranche).Explained := by
  refine ⟨?_, fun kind => ?_⟩
  · cases hstart : config.earlyRelease.commencement? tranche with
    | none =>
      rw [mergeEarly_of_none hstart]
      exact hstandard.dates
    | some commencement =>
      rw [mergeEarly_of_some hstart]
      refine recordAll_explained (fun entry hentry => ?_) hstandard.dates
      obtain ⟨kind, hkind, rfl⟩ := List.mem_map.mp hentry
      refine ⟨?_, fun b hb => replacement?_consistent hearly hb⟩
      -- a date for comparison does not depend on early release
      rintro rfl
      exact absurd hkind (by decide)
  · rw [otherDates_mergeEarly]
    exact hstandard.otherDates kind

end Outcome

/-! ## The answers of a booking -/

namespace Booking

variable {config : Config} {inputs : Inputs} {b : Booking}

theorem calculations_explained {assumption : Assumption} {p : Pass}
    (h : b.pass config inputs assumption = .ok p) : ∀ c ∈ p.calculations, c.Explained := by
  intro c hc
  obtain ⟨_, _, _, _, hcalculated⟩ := exists_of_mem_calculations h hc
  exact calculateUnit_explained hcalculated

theorem outcome_explained {assumption : Assumption} {p : Pass}
    (h : b.pass config inputs assumption = .ok p) : p.outcome.Explained :=
  Outcome.ofUnits_explained (calculations_explained h) (ofUnits_of_pass h)

/-- **All dates are explained**, those of each unit and of each pass, and those of the answer. -/
theorem answers_explained (config : Config) (inputs : Inputs) (b : Booking) :
    (∀ assumption p, b.pass config inputs assumption = .ok p →
        (∀ c ∈ p.calculations, c.Explained) ∧ p.outcome.Explained)
      ∧ ∀ o, b.calculate config inputs = .ok o → o.Explained := by
  refine ⟨fun assumption p h => ⟨calculations_explained h, outcome_explained h⟩, fun o h => ?_⟩
  obtain ⟨standard, early, tranche, hs, he, _, rfl⟩ := calculate_eq_ok h
  exact Outcome.mergeEarly_explained (outcome_explained hs) (outcome_explained he) tranche

/-- A breach that was recorded after the sentence puts curfew back to its own release, by 149 days
that are accounted for. -/
theorem answers_explained_breach :
    ∃ o curfew, breachAfterSentence.calculate EnglandAndWales.config {} = .ok o
      ∧ o.breakdown? .hdced = some curfew
      ∧ curfew.rules = [.hdcedFromMidpoint, .hdcedConcurrentRelease]
      ∧ curfew.ruleAdjustments.get? .hdcedConcurrentRelease = some 149
      ∧ curfew.adjustedDays = 149 ∧ o.Explained := by
  have heval : (fun o : Outcome => (o.breakdown? .hdced).map fun c =>
        (c.rules, c.ruleAdjustments.get? .hdcedConcurrentRelease, c.adjustedDays))
        <$> breachAfterSentence.calculate EnglandAndWales.config {}
      = .ok (some ([.hdcedFromMidpoint, .hdcedConcurrentRelease], some 149, 149)) := by
    simp only [calculate, pass, timeline_eq_insertionSort]
    decide +kernel
  obtain ⟨o, ho, hfound⟩ := Answered.map_eq_ok.mp heval
  obtain ⟨curfew, hcurfew, hrules⟩ := Option.map_eq_some_iff.mp hfound
  simp only [Prod.mk.injEq] at hrules
  obtain ⟨hrules, hraised, hdays⟩ := hrules
  exact ⟨o, curfew, ho, hcurfew, hrules, hraised, hdays, (answers_explained _ _ _).2 o ho⟩

end Booking

end Custody
