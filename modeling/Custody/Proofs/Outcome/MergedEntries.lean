import Custody.Config.EnglandAndWales
import Custody.Proofs.Outcome.Merge

/-!
# The entries of a merge

The merge of two passes entry by entry, the breakdowns included. In a tranche that has started on a
date, the *commencement*, each kind that depends on early release goes through one rule
(`MergedEntry`), which looks at the two entries of that kind alone. Everything else is that of the
standard pass.

* **`MergedEntry`**: what the entry of a kind is merged to.
* **`breakdown?_mergeEarly`**: the merge follows the rule.
* **`merges_mergeEarly`**: the merge as a whole, and that merging anew changes nothing.
-/

namespace Custody

open Custody.Calendar

namespace Outcome

variable {config : Config} {standard early : Outcome} {tranche : Tranche} {commencement : Date}

/-! ## The rule for one kind -/

/-- What the entries of two passes of one kind are merged to in a tranche that has started on a
date. -/
inductive MergedEntry (commencement : Date) (standard early : Option Breakdown) :
    Option Breakdown → Prop
  /-- What neither pass has the merge does not have. -/
  | absent (hstandard : standard = none) (hearly : early = none) :
    MergedEntry commencement standard early none
  /-- The early entry stands if it is not before the start. -/
  | early (e : Breakdown) (hearly : early = some e) (hstarted : commencement ≤ e.releaseDate) :
    MergedEntry commencement standard early (some e)
  /-- Otherwise the standard one does if that is not before the start. -/
  | standard (s : Breakdown) (hstandard : standard = some s)
    (hstarted : commencement ≤ s.releaseDate)
    (hearly : ∀ e, early = some e → e.releaseDate < commencement) :
    MergedEntry commencement standard early (some s)
  /-- A date before the start, the early one if there is one, is held until then. -/
  | held (unadjusted : Date)
    (hdate : (early.map Breakdown.releaseDate).or (standard.map Breakdown.releaseDate)
      = some unadjusted)
    (hearly : ∀ e, early = some e → e.releaseDate < commencement)
    (hstandard : ∀ s, standard = some s → s.releaseDate < commencement) :
    MergedEntry commencement standard early (some {
      rules := [.trancheCommencement]
      ruleAdjustments := Table.empty
      adjustedDays := unadjusted.daysUntil commencement
      releaseDate := commencement
      unadjustedDate := unadjusted })

namespace MergedEntry

variable {standard early merged : Option Breakdown}

theorem eq_none_iff (h : MergedEntry commencement standard early merged) :
    merged = none ↔ standard = none ∧ early = none := by
  cases h with
  | absent hstandard hearly => simp [hstandard, hearly]
  | early e hearly => simp [hearly]
  | standard s hstandard => simp [hstandard]
  | held unadjusted hdate =>
    have hne : ¬ (standard = none ∧ early = none) := by
      rintro ⟨rfl, rfl⟩
      cases hdate
    simp [hne]

/-- Nothing is merged to a date before the start. -/
theorem le_releaseDate (h : MergedEntry commencement standard early merged) {b : Breakdown}
    (hb : merged = some b) : commencement ≤ b.releaseDate := by
  cases h with
  | absent => cases hb
  | early e _ hstarted =>
    cases hb
    exact hstarted
  | standard s _ hstarted =>
    cases hb
    exact hstarted
  | held =>
    cases hb
    exact le_refl commencement.day

/-- Merging what has been merged with the same early entry leaves it as it is. -/
theorem idempotent (h : MergedEntry commencement standard early merged) {merged' : Option Breakdown}
    (h' : MergedEntry commencement merged early merged') : merged' = merged := by
  have hnone := h.eq_none_iff
  have hle {b : Breakdown} := h.le_releaseDate (b := b)
  cases h' with
  | absent hmerged => exact hmerged.symm
  | early e hearly hstarted =>
    -- the early entry stood before, since one that stands is not before the start
    cases h with
    | absent _ hnone' =>
      rw [hnone'] at hearly
      cases hearly
    | early e' hearly' => rw [← hearly, hearly']
    | standard s _ _ hbefore =>
      exact absurd hstarted (Date.not_le.mpr (hbefore e hearly))
    | held unadjusted _ hbefore =>
      exact absurd hstarted (Date.not_le.mpr (hbefore e hearly))
  | standard s hmerged => exact hmerged.symm
  | held unadjusted hdate hearly hmerged =>
    -- what has been merged is not before the start, so it is not held
    cases hm : merged with
    | none =>
      rw [hm, (hnone.mp hm).2] at hdate
      cases hdate
    | some b =>
      exact absurd (hle hm) (Date.not_le.mpr (hmerged b hm))

end MergedEntry

/-! ## The merge follows the rule -/

/-- What is put in the place of a standard entry, or else that entry, is what the rule asks for. -/
theorem mergedEntry_replacement? (hstandard : standard.InStep) (kind : DateKind) :
    MergedEntry commencement (standard.breakdown? kind) (early.breakdown? kind)
      ((replacement? commencement standard early kind).or (standard.breakdown? kind)) := by
  unfold replacement?
  rw [hstandard.date?_eq]
  generalize early.breakdown? kind = e, standard.breakdown? kind = s
  -- by which dates there are, and which of them fall before commencement
  cases e with
  | none =>
    cases s with
    | none => exact .absent rfl rfl
    | some s =>
      by_cases hs : commencement ≤ s.releaseDate
      · simpa [hs] using .standard s rfl hs (by simp)
      · have hstandard := Date.not_le.mp hs
        simpa [hs, heldUntil, Breakdown.of, Breakdown.withRule] using
          .held s.releaseDate rfl (by simp) (by simpa using hstandard)
  | some e =>
    by_cases he : commencement ≤ e.releaseDate
    · simpa [he] using .early e rfl he
    · have hearly := Date.not_le.mp he
      cases s with
      | none =>
        simpa [he, heldUntil, Breakdown.of, Breakdown.withRule] using
          .held e.releaseDate rfl (by simpa using hearly) (by simp)
      | some s =>
        by_cases hs : commencement ≤ s.releaseDate
        · simpa [he, hs] using .standard s rfl hs (by simpa using hearly)
        · have hstandard := Date.not_le.mp hs
          simpa [he, hs, heldUntil, Breakdown.of, Breakdown.withRule] using
            .held e.releaseDate rfl (by simpa using hearly) (by simpa using hstandard)

theorem breakdown?_mergeEarly (hstandard : standard.InStep) {kind : DateKind}
    (hkind : kind ∈ DateKind.earlyReleaseSensitive)
    (h : config.earlyRelease.commencement? tranche = some commencement) :
    MergedEntry commencement (standard.breakdown? kind) (early.breakdown? kind)
      ((mergeEarly config standard early tranche).breakdown? kind) := by
  have hnodup : ((DateKind.earlyReleaseSensitive.map fun kind =>
      (kind, replacement? commencement standard early kind)).map Prod.fst).Nodup := by
    rw [map_fst_entries]
    decide
  rw [mergeEarly_of_some h,
    breakdown?_recordAll_of_mem hnodup (List.mem_map.mpr ⟨kind, hkind, rfl⟩)]
  exact mergedEntry_replacement? hstandard kind

theorem breakdown?_mergeEarly_of_notMem {kind : DateKind}
    (hkind : kind ∉ DateKind.earlyReleaseSensitive) :
    (mergeEarly config standard early tranche).breakdown? kind = standard.breakdown? kind := by
  cases h : config.earlyRelease.commencement? tranche with
  | none =>
    rw [mergeEarly_of_none h]
    rfl
  | some commencement =>
    rw [mergeEarly_of_some h, breakdown?_recordAll_of_notMem]
    · rfl
    · rwa [map_fst_entries]

theorem InStep.mergeEarly (hstandard : standard.InStep) :
    (Outcome.mergeEarly config standard early tranche).InStep := by
  cases h : config.earlyRelease.commencement? tranche with
  | none =>
    rw [mergeEarly_of_none h]
    exact hstandard
  | some commencement =>
    rw [mergeEarly_of_some h]
    have hfirst : InStep { standard with tranche } := hstandard
    exact hfirst.recordAll

theorem otherDates_mergeEarly :
    (mergeEarly config standard early tranche).otherDates = standard.otherDates :=
  mergeEarly_preserves fun _ _ _ => rfl

theorem effectiveLength_mergeEarly :
    (mergeEarly config standard early tranche).effectiveLength = standard.effectiveLength :=
  mergeEarly_preserves fun _ _ _ => rfl

/-! ## The merge as a whole -/

/-- An outcome in step is known by its breakdowns and what it has besides dates. -/
theorem eq_of_breakdown?_eq {o o' : Outcome} (h : o.InStep) (h' : o'.InStep)
    (hbreakdown : ∀ kind, o.breakdown? kind = o'.breakdown? kind)
    (hother : o.otherDates = o'.otherDates) (hlength : o.effectiveLength = o'.effectiveLength)
    (htranche : o.tranche = o'.tranche) : o = o' := by
  have hbreakdowns : o.breakdowns = o'.breakdowns := Table.ext (funext hbreakdown)
  have hdates : o.dates = o'.dates := by
    apply Table.ext
    funext kind
    rw [h kind, h' kind, hbreakdowns]
  cases o
  cases o'
  simp_all

/-- Two outcomes merged in a tranche that has started on a date. -/
structure Merges (commencement : Date) (standard early merged : Outcome) : Prop where
  inStep : merged.InStep
  /-- A kind that depends on early release is there if either outcome has it. -/
  present : ∀ kind ∈ DateKind.earlyReleaseSensitive,
    merged.date? kind = none ↔ standard.date? kind = none ∧ early.date? kind = none
  started : ∀ kind ∈ DateKind.earlyReleaseSensitive, ∀ d, merged.date? kind = some d →
    commencement ≤ d
  entry : ∀ kind ∈ DateKind.earlyReleaseSensitive,
    MergedEntry commencement (standard.breakdown? kind) (early.breakdown? kind)
      (merged.breakdown? kind)
  /-- The other kinds are those of the standard outcome. -/
  rest : ∀ kind, kind ∉ DateKind.earlyReleaseSensitive →
    merged.date? kind = standard.date? kind ∧ merged.breakdown? kind = standard.breakdown? kind
  otherDates : merged.otherDates = standard.otherDates
  effectiveLength : merged.effectiveLength = standard.effectiveLength

/-- **The merge of two passes.** Outside of the scheme it is the standard one. In a tranche each
kind goes through the rule for its entries, the rest stays as it was, and merging the merge anew
changes nothing. -/
theorem merges_mergeEarly (config : Config) {standard early : Outcome} (hstandard : standard.InStep)
    (hearly : early.InStep) :
    mergeEarly config standard early .tranche0 = { standard with tranche := .tranche0 }
      ∧ ∀ tranche ≠ .tranche0, ∃ commencement,
        config.earlyRelease.commencement? tranche = some commencement
        ∧ Merges commencement standard early (mergeEarly config standard early tranche)
        ∧ (mergeEarly config standard early tranche).tranche = tranche
        ∧ mergeEarly config (mergeEarly config standard early tranche) early tranche
          = mergeEarly config standard early tranche := by
  refine ⟨mergeEarly_of_none rfl, fun tranche htranche => ?_⟩
  obtain ⟨commencement, hstart⟩ := Option.ne_none_iff_exists'.mp
    (mt commencement?_eq_none_iff.mp htranche)
  have hentry : ∀ kind ∈ DateKind.earlyReleaseSensitive,
      MergedEntry commencement (standard.breakdown? kind) (early.breakdown? kind)
        ((mergeEarly config standard early tranche).breakdown? kind) :=
    fun kind hkind => breakdown?_mergeEarly hstandard hkind hstart
  have hmerged : (mergeEarly config standard early tranche).InStep := hstandard.mergeEarly
  refine ⟨commencement, hstart, ⟨hmerged, fun kind hkind => ?_, fun kind hkind d hd => ?_, hentry,
    fun kind hkind =>
      ⟨date?_mergeEarly_of_notMem hkind, breakdown?_mergeEarly_of_notMem hkind⟩,
    otherDates_mergeEarly, effectiveLength_mergeEarly⟩, tranche_mergeEarly, ?_⟩
  · -- dates are there when breakdowns are
    have hiff := (hentry kind hkind).eq_none_iff
    unfold date?
    rw [hmerged.get?_eq_none_iff, hstandard.get?_eq_none_iff, hearly.get?_eq_none_iff]
    exact hiff
  · rw [hmerged.date?_eq, Option.map_eq_some_iff] at hd
    obtain ⟨b, hb, rfl⟩ := hd
    exact (hentry kind hkind).le_releaseDate hb
  · apply eq_of_breakdown?_eq hmerged.mergeEarly hmerged
    · intro kind
      by_cases hkind : kind ∈ DateKind.earlyReleaseSensitive
      · exact (hentry kind hkind).idempotent (breakdown?_mergeEarly hmerged hkind hstart)
      · exact breakdown?_mergeEarly_of_notMem hkind
    · exact otherDates_mergeEarly
    · exact effectiveLength_mergeEarly
    · rw [tranche_mergeEarly, tranche_mergeEarly]

/-- Dates as they may come of a standard pass. -/
def plainDates : Outcome :=
  ((empty.record .sled (.of (EnglandAndWales.on 2027 3 1) (EnglandAndWales.on 2027 3 1))).record
    .crd (.of (EnglandAndWales.on 2025 3 1) (EnglandAndWales.on 2025 3 1))).record .hdced
    (.of (EnglandAndWales.on 2024 9 30) (EnglandAndWales.on 2024 9 30))

/-- The same dates under early release, curfew from before the second tranche has started. -/
def easedDates : Outcome :=
  (plainDates.record .crd
    (.of (EnglandAndWales.on 2024 12 1) (EnglandAndWales.on 2024 12 1))).record .hdced
    (.of (EnglandAndWales.on 2024 8 1) (EnglandAndWales.on 2024 8 1))

/-- Release is the early one, and curfew is held until the tranche starts. -/
theorem merges_mergeEarly_eased : plainDates.InStep ∧ easedDates.InStep
    ∧ ∃ merged, mergeEarly EnglandAndWales.config plainDates easedDates .tranche2 = merged
      ∧ Merges (EnglandAndWales.on 2024 10 22) plainDates easedDates merged
      ∧ merged.date? .crd = some (EnglandAndWales.on 2024 12 1)
      ∧ merged.breakdown? .hdced = some {
          rules := [.trancheCommencement]
          ruleAdjustments := Table.empty
          adjustedDays := 82
          releaseDate := EnglandAndWales.on 2024 10 22
          unadjustedDate := EnglandAndWales.on 2024 8 1 }
      ∧ mergeEarly EnglandAndWales.config merged easedDates .tranche2 = merged := by
  have hplain : plainDates.InStep :=
    ((Custody.InStep.empty.insert .sled _).insert .crd _).insert .hdced _
  have heased : easedDates.InStep := (hplain.record .crd _).record .hdced _
  obtain ⟨_, hmerge⟩ := merges_mergeEarly EnglandAndWales.config hplain heased
  obtain ⟨commencement, hstart, hmerges, _, hagain⟩ := hmerge .tranche2 (by decide)
  obtain rfl := Option.some.inj hstart
  exact ⟨hplain, heased, _, rfl, hmerges, by decide +kernel, by decide +kernel, hagain⟩

end Outcome

end Custody
