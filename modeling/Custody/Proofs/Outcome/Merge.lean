import Custody.Outcome.EarlyRelease
import Custody.Proofs.Outcome.Dates

/-!
# The dates of two passes merged

In a tranche that has a start the two passes are merged kind by kind (`mergedDate`): the early date
if the tranche has started by then, and otherwise the standard one, held until the tranche starts if
it is before that. A kind that only one pass has goes through the same rule, so release may come
from both passes at once when they keep different kinds of it.

* **`date?_mergeEarly`**: the merge, one kind at a time.
* **`expiryDate?_mergeEarly`**: expiry does not depend on early release.
* **`ReleasedOn.mergeEarly`**: the release of the merge.
* **`le_release_of_allocateTranche`**: only the start of the first tranche is looked at.
* **`exists_releaseOf`**: the release of a booking in its tranche.
-/

namespace Custody

open Custody.Calendar

namespace Outcome

variable {config : Config} {standard early : Outcome} {tranche : Tranche} {commencement : Date}

/-! ## One kind at a time -/

/-- What the dates of two passes of one kind are merged to in a tranche that starts on a date. -/
def mergedDate (commencement : Date) (standard early : Option Date) : Option Date :=
  match early with
  | some e =>
    if commencement ≤ e then some e
    else some ((standard.map (max commencement)).getD commencement)
  | none => standard.map (max commencement)

theorem mergedDate_eq_none_iff {standard early : Option Date} :
    mergedDate commencement standard early = none ↔ standard = none ∧ early = none := by
  cases early with
  | none => simp [mergedDate]
  | some e =>
    simp only [mergedDate, reduceCtorEq, and_false, iff_false]
    split <;> exact Option.some_ne_none _

/-- A merged date is the early one if that is not before the start, and otherwise it is the start or
the standard date, whichever is later. -/
theorem mergedDate_eq_some {standard early : Option Date} {d : Date}
    (h : mergedDate commencement standard early = some d) :
    (∃ e, early = some e ∧ commencement.day ≤ e.day ∧ d = e)
      ∨ (∀ e, early = some e → e.day < commencement.day) ∧ commencement.day ≤ d.day
        ∧ (d = commencement ∨ ∃ s, standard = some s ∧ d.day = max commencement.day s.day) := by
  cases early with
  | none =>
    obtain ⟨s, rfl, rfl⟩ := Option.map_eq_some_iff.mp h
    have hday := Date.day_max commencement s
    refine .inr ⟨fun e he => ?_, by omega, .inr ⟨s, rfl, hday⟩⟩
    cases he
  | some e =>
    rw [mergedDate] at h
    -- the early date stands once the scheme has started, or else the later of the others
    split at h
    · next hstarted =>
      cases h
      exact .inl ⟨d, rfl, hstarted, rfl⟩
    · next hnot =>
      rw [Date.le_iff, not_le] at hnot
      cases h
      refine .inr ⟨fun e' he' => by cases he'; exact hnot, ?_⟩
      cases standard with
      | none => exact ⟨le_rfl, .inl rfl⟩
      | some s =>
        have hday := Date.day_max commencement s
        rw [Option.map_some, Option.getD_some]
        exact ⟨by omega, .inr ⟨s, rfl, hday⟩⟩

/-- Whatever takes the place of a standard date, the kind has the merged date. -/
theorem date?_replacement? (hearly : early.InStep) (kind : DateKind) :
    ((replacement? commencement standard early kind).map Breakdown.releaseDate).or
        (standard.date? kind)
      = mergedDate commencement (standard.date? kind) (early.date? kind) := by
  -- the replacement looks at the early breakdown, the merged date at the early date
  have hdate : early.date? kind = (early.breakdown? kind).map Breakdown.releaseDate := hearly kind
  rw [hdate, replacement?]
  generalize early.breakdown? kind = b, standard.date? kind = d
  cases b with
  | none =>
    cases d with
    | none => rfl
    | some s =>
      by_cases hs : commencement ≤ s
      · simp [mergedDate, hs, Date.max_of_le hs]
      · simp [mergedDate, hs, Date.max_of_not_le hs, heldUntil, Breakdown.of, Breakdown.withRule]
  | some b =>
    by_cases hb : commencement ≤ b.releaseDate
    · simp [mergedDate, hb]
    · cases d with
      | none => simp [mergedDate, hb, heldUntil, Breakdown.of, Breakdown.withRule]
      | some s =>
        by_cases hs : commencement ≤ s
        · simp [mergedDate, hb, hs, Date.max_of_le hs]
        · simp [mergedDate, hb, hs, Date.max_of_not_le hs, heldUntil, Breakdown.of,
            Breakdown.withRule]

/-! ## The merge -/

/-- In a tranche that has no start the standard dates are kept. -/
theorem mergeEarly_of_none (h : config.earlyRelease.commencement? tranche = none) :
    mergeEarly config standard early tranche = { standard with tranche } := by
  rw [mergeEarly, h]

/-- In a tranche that has a start the dates that depend on early release are recorded anew. -/
theorem mergeEarly_of_some (h : config.earlyRelease.commencement? tranche = some commencement) :
    mergeEarly config standard early tranche
      = recordAll { standard with tranche } (DateKind.earlyReleaseSensitive.map fun kind =>
          (kind, replacement? commencement standard early kind)) := by
  rw [mergeEarly, h, recordAll, List.foldl_map]

/-- What recording a date does not change, the merge does not. -/
theorem mergeEarly_preserves {β : Type} {g : Outcome → β}
    (hrecord : ∀ o kind b, g (record o kind b) = g o) :
    g (mergeEarly config standard early tranche) = g { standard with tranche } := by
  cases h : config.earlyRelease.commencement? tranche with
  | none => rw [mergeEarly_of_none h]
  | some commencement => rw [mergeEarly_of_some h, recordAll_preserves hrecord]

theorem tranche_mergeEarly : (mergeEarly config standard early tranche).tranche = tranche :=
  mergeEarly_preserves fun _ _ _ => rfl

theorem map_fst_entries (kinds : List DateKind) (f : DateKind → Option Breakdown) :
    (kinds.map fun kind => (kind, f kind)).map Prod.fst = kinds := by
  rw [List.map_map]
  exact List.map_id kinds

theorem date?_mergeEarly_of_notMem {kind : DateKind}
    (hkind : kind ∉ DateKind.earlyReleaseSensitive) :
    (mergeEarly config standard early tranche).date? kind = standard.date? kind := by
  cases h : config.earlyRelease.commencement? tranche with
  | none =>
    rw [mergeEarly_of_none h]
    rfl
  | some commencement =>
    rw [mergeEarly_of_some h, date?_recordAll_of_notMem]
    · rfl
    · rwa [map_fst_entries]

/-- **The merge, one kind at a time.** -/
theorem date?_mergeEarly (hearly : early.InStep) {kind : DateKind}
    (hkind : kind ∈ DateKind.earlyReleaseSensitive)
    (h : config.earlyRelease.commencement? tranche = some commencement) :
    (mergeEarly config standard early tranche).date? kind
      = mergedDate commencement (standard.date? kind) (early.date? kind) := by
  rw [mergeEarly_of_some h, date?_recordAll_of_mem ?_ (List.mem_map.mpr ⟨kind, hkind, rfl⟩)]
  · exact date?_replacement? hearly kind
  · rw [map_fst_entries]
    decide

/-- The dates of a merge follow from the dates of the passes. -/
theorem dates_mergeEarly_congr {standard' early' : Outcome}
    (hstandard : standard.dates = standard'.dates) (hearly : early.dates = early'.dates)
    (hinStep : early.InStep) (hinStep' : early'.InStep) :
    (mergeEarly config standard early tranche).dates
      = (mergeEarly config standard' early' tranche).dates := by
  have hdate (kind : DateKind) : standard.date? kind = standard'.date? kind := by
    rw [date?, date?, hstandard]
  have hdate' (kind : DateKind) : early.date? kind = early'.date? kind := by
    rw [date?, date?, hearly]
  apply Table.ext
  funext kind
  show (mergeEarly config standard early tranche).date? kind
    = (mergeEarly config standard' early' tranche).date? kind
  -- whichever way a kind is merged, dates are all that is looked at
  by_cases hkind : kind ∈ DateKind.earlyReleaseSensitive
  · cases hstart : config.earlyRelease.commencement? tranche with
    | none =>
      rw [mergeEarly_of_none hstart, mergeEarly_of_none hstart]
      exact hdate kind
    | some commencement =>
      rw [date?_mergeEarly hinStep hkind hstart, date?_mergeEarly hinStep' hkind hstart, hdate,
        hdate']
  · rw [date?_mergeEarly_of_notMem hkind, date?_mergeEarly_of_notMem hkind, hdate]

theorem date?_mergeEarly_eq_none (hinStep : early.InStep) {kind : DateKind}
    (hstandard : standard.date? kind = none) (hearly : early.date? kind = none) :
    (mergeEarly config standard early tranche).date? kind = none := by
  by_cases hkind : kind ∈ DateKind.earlyReleaseSensitive
  · cases hstart : config.earlyRelease.commencement? tranche with
    | none =>
      rw [mergeEarly_of_none hstart]
      exact hstandard
    | some commencement =>
      rw [date?_mergeEarly hinStep hkind hstart, hstandard, hearly]
      rfl
  · rw [date?_mergeEarly_of_notMem hkind, hstandard]

/-- **Expiry does not depend on early release.** -/
theorem expiryDate?_mergeEarly :
    (mergeEarly config standard early tranche).expiryDate? = standard.expiryDate? := by
  exact expiryDate?_congr fun kind hkind =>
    date?_mergeEarly_of_notMem hkind.notMem_earlyReleaseSensitive

/-! ## Release -/

/-- **The release of the merge.** It is the early one if both passes are released in the same way
and the tranche has started by then, and otherwise the standard one, held until the tranche
starts. -/
theorem ReleasedOn.mergeEarly {j k : DateKind} {s e : Date} (hstandard : standard.ReleasedOn j s)
    (hearly : early.ReleasedOn k e) (hinStep : early.InStep) (hle : e.day ≤ s.day)
    (h : config.earlyRelease.commencement? tranche = some commencement) :
    ∃ r, (Outcome.mergeEarly config standard early tranche).latestRelease? = some r
      ∧ (j = k ∧ commencement.day ≤ e.day ∧ r = e
        ∨ ¬ (j = k ∧ commencement.day ≤ e.day) ∧ r.day = max commencement.day s.day) := by
  have hdate {i : DateKind} (hi : i.IsRelease) :
      (Outcome.mergeEarly config standard early tranche).date? i = mergedDate commencement
        (if i = j then some s else none) (if i = k then some e else none) := by
    rw [date?_mergeEarly hinStep hi.mem_earlyReleaseSensitive h, hstandard.2 i hi, hearly.2 i hi]
  by_cases hkind : j = k
  · -- the passes keep the same kind of release, and so does the merge
    subst hkind
    by_cases hstarted : commencement ≤ e
    · have hmerged : (Outcome.mergeEarly config standard early tranche).ReleasedOn j e := by
        refine ⟨hstandard.1, fun i hi => ?_⟩
        rw [hdate hi]
        split
        · rw [mergedDate, if_pos hstarted]
        · rfl
      exact ⟨e, hmerged.latestRelease?_eq, .inl ⟨rfl, hstarted, rfl⟩⟩
    · have hmerged : (Outcome.mergeEarly config standard early tranche).ReleasedOn j
          (max commencement s) := by
        refine ⟨hstandard.1, fun i hi => ?_⟩
        rw [hdate hi]
        split
        · rw [mergedDate, if_neg hstarted, Option.map_some, Option.getD_some]
        · rfl
      exact ⟨max commencement s, hmerged.latestRelease?_eq,
        .inr ⟨fun hboth => hstarted hboth.2, Date.day_max _ _⟩⟩
  · -- the merge has release of both kinds, of which the standard one is the later
    have hj := hdate hstandard.1
    have hk := hdate hearly.1
    rw [if_pos rfl, if_neg hkind] at hj
    rw [if_neg (Ne.symm hkind), if_pos rfl] at hk
    by_cases hstarted : commencement ≤ e
    · rw [mergedDate, if_pos hstarted] at hk
      obtain ⟨r, hr, hday⟩ := latestRelease?_of_both hstandard.1 hearly.1 hkind hj hk
      refine ⟨r, hr, .inr ⟨fun hboth => hkind hboth.1, ?_⟩⟩
      rw [Date.day_max] at hday
      omega
    · rw [mergedDate, if_neg hstarted] at hk
      obtain ⟨r, hr, hday⟩ := latestRelease?_of_both hstandard.1 hearly.1 hkind hj hk
      refine ⟨r, hr, .inr ⟨fun hboth => hkind hboth.1, ?_⟩⟩
      rw [Date.day_max] at hday
      change r.day = max _ commencement.day at hday
      omega

/-! ## Tranches -/

/-- A booking is in a tranche only if standard release is not before the start of the first. -/
theorem le_release_of_allocateTranche {units : List Sentence} {d : Date}
    (h : allocateTranche config units standard = .ok tranche) (htranche : tranche ≠ .tranche0)
    (hd : standard.releaseDate? = some d) :
    config.earlyRelease.trancheOneCommencement ≤ d := by
  rw [allocateTranche, hd] at h
  split at h
  · cases h
    exact absurd rfl htranche
  · next hnot =>
    rw [Option.any_some, decide_eq_true_eq, Date.lt_iff, not_lt] at hnot
    exact hnot

theorem commencement?_eq_none_iff :
    config.earlyRelease.commencement? tranche = none ↔ tranche = .tranche0 := by
  cases tranche <;> simp [EarlyReleaseTerms.commencement?]

/-! ## Release in the tranche of a booking -/

/-- When a booking is released of which standard release is on one date and early release on
another, of the same kind or not. -/
inductive ReleaseOf (config : Config) (tranche : Tranche) (sameKind : Prop) (s e r : Date) : Prop
  /-- Outside of the scheme release is the standard one. -/
  | outside (htranche : tranche = .tranche0) (hrelease : r = s)
  /-- Once the tranche has started release is the early one. -/
  | started (commencement : Date)
    (hstart : config.earlyRelease.commencement? tranche = some commencement)
    (hscheme : config.earlyRelease.trancheOneCommencement.day ≤ s.day) (hkind : sameKind)
    (hstarted : commencement.day ≤ e.day) (hrelease : r = e)
  /-- Otherwise release is the standard one, held until the tranche starts. -/
  | held (commencement : Date)
    (hstart : config.earlyRelease.commencement? tranche = some commencement)
    (hscheme : config.earlyRelease.trancheOneCommencement.day ≤ s.day)
    (hnot : ¬ (sameKind ∧ commencement.day ≤ e.day)) (hrelease : r.day = max commencement.day s.day)

namespace ReleaseOf

variable {sameKind : Prop} {s e r x : Date}

/-- In a tranche release is the early one, or the later of the start and the standard one. -/
theorem cases_of_commencement (h : ReleaseOf config tranche sameKind s e r)
    (hstart : config.earlyRelease.commencement? tranche = some commencement) :
    sameKind ∧ commencement.day ≤ e.day ∧ r = e
      ∨ ¬ (sameKind ∧ commencement.day ≤ e.day) ∧ r.day = max commencement.day s.day := by
  cases h with
  | outside htranche =>
    -- outside of the scheme nothing starts
    subst htranche
    cases hstart
  | started c hstart' _ hkind hstarted hrelease =>
    rw [hstart] at hstart'
    cases hstart'
    exact .inl ⟨hkind, hstarted, hrelease⟩
  | held c hstart' _ hnot hrelease =>
    rw [hstart] at hstart'
    cases hstart'
    exact .inr ⟨hnot, hrelease⟩

theorem le_standard (h : ReleaseOf config tranche sameKind s e r) (htranche : tranche ≠ .tranche0) :
    config.earlyRelease.trancheOneCommencement.day ≤ s.day := by
  cases h with
  | outside h => exact absurd h htranche
  | started _ _ hscheme => exact hscheme
  | held _ _ hscheme => exact hscheme

/-- **Outside of the second tranche release is no later than the standard one.** -/
theorem le_of_ne_tranche2 (h : ReleaseOf config tranche sameKind s e r) (hle : e.day ≤ s.day)
    (htranche : tranche ≠ .tranche2) : r.day ≤ s.day := by
  cases tranche with
  | tranche0 =>
    cases h with
    | outside _ hrelease => rw [hrelease]
    | started _ hstart => cases hstart
    | held _ hstart => cases hstart
  | tranche1 =>
    -- standard release is not before the start, so holding it until then does not move it
    have hscheme := h.le_standard (by decide)
    rcases h.cases_of_commencement rfl with ⟨_, _, rfl⟩ | ⟨_, hrelease⟩
    · exact hle
    · omega
  | tranche2 => exact absurd rfl htranche

/-- **Release is later than the standard one only if the second tranche starts in between.** -/
theorem lt_iff (h : ReleaseOf config tranche sameKind s e r) (hle : e.day ≤ s.day) :
    s.day < r.day ↔ tranche = .tranche2
      ∧ config.earlyRelease.trancheOneCommencement.day ≤ s.day
      ∧ s.day < config.earlyRelease.trancheTwoCommencement.day := by
  by_cases htranche : tranche = .tranche2
  · subst htranche
    have hscheme := h.le_standard (by decide)
    rcases h.cases_of_commencement rfl with ⟨_, hstarted, rfl⟩ | ⟨_, hrelease⟩
    · -- an early release that stands is after the start and not later than the standard one
      constructor
      · intro hlt
        omega
      · rintro ⟨_, _, hlt⟩
        omega
    · constructor
      · intro hlt
        exact ⟨rfl, hscheme, by omega⟩
      · rintro ⟨_, _, hlt⟩
        omega
  · have := h.le_of_ne_tranche2 hle htranche
    exact ⟨fun hlt => by omega, fun hboth => absurd hboth.1 htranche⟩

theorem eq_of_lt (h : ReleaseOf config tranche sameKind s e r) (hle : e.day ≤ s.day)
    (hlt : s.day < r.day) : r = config.earlyRelease.trancheTwoCommencement := by
  obtain ⟨rfl, _, hwindow⟩ := (h.lt_iff hle).mp hlt
  rcases h.cases_of_commencement rfl with ⟨_, _, rfl⟩ | ⟨_, hrelease⟩
  · omega
  · exact Date.ext (by omega)

/-- **Release before an expiry that standard release is before.** Only the start of the second
tranche can be after it. -/
theorem le_iff (h : ReleaseOf config tranche sameKind s e r) (hle : e.day ≤ s.day)
    (hx : s.day ≤ x.day) :
    r.day ≤ x.day
      ↔ (tranche = .tranche2 → config.earlyRelease.trancheTwoCommencement.day ≤ x.day) := by
  by_cases htranche : tranche = .tranche2
  · subst htranche
    rcases h.cases_of_commencement rfl with ⟨_, hstarted, rfl⟩ | ⟨_, hrelease⟩
    · exact ⟨fun _ _ => by omega, fun _ => by omega⟩
    · exact ⟨fun _ _ => by omega, fun hstart => by have := hstart rfl; omega⟩
  · have := h.le_of_ne_tranche2 hle htranche
    exact ⟨fun _ h => absurd h htranche, fun _ => by omega⟩

/-- **When a date before release is merged to one that is not.** Each pass has it before its own
release. So it takes a date that is held until the tranche starts, and a release that is not later
than that: a standard one from before the start, or an early one that the date is put behind. -/
theorem le_mergedDate_iff (h : ReleaseOf config tranche sameKind s e r) (hle : e.day ≤ s.day)
    (hstart : config.earlyRelease.commencement? tranche = some commencement)
    {standardDate earlyDate : Option Date} {d : Date}
    (hd : mergedDate commencement standardDate earlyDate = some d)
    (hstandard : ∀ x, standardDate = some x → x.day < s.day)
    (hearly : ∀ x, earlyDate = some x → x.day < e.day) :
    r.day ≤ d.day ↔ (∀ x, earlyDate = some x → x.day < commencement.day)
      ∧ (s.day ≤ commencement.day ∨ sameKind ∧ commencement.day ≤ e.day ∧ e.day ≤ d.day) := by
  have hrelease := h.cases_of_commencement hstart
  rcases mergedDate_eq_some hd with ⟨x, hx, hstarted, rfl⟩ | ⟨hnot, hge, hcases⟩
  · -- the early date stands, and is before release on either date
    have hlt := hearly d hx
    have hbefore : d.day < r.day := by
      rcases hrelease with ⟨_, _, rfl⟩ | ⟨_, hr⟩
      · exact hlt
      · omega
    refine ⟨fun hrd => by omega, fun hboth => ?_⟩
    have := hboth.1 d hx
    omega
  · -- a held date is the start itself, or behind it and still before standard release
    have hd : d.day = commencement.day ∨ d.day < s.day := by
      rcases hcases with rfl | ⟨x, hx, hday⟩
      · exact .inl rfl
      · have := hstandard x hx
        omega
    rcases hrelease with ⟨hkind, hstarted, rfl⟩ | ⟨hnotKind, hr⟩
    · exact ⟨fun hrd => ⟨hnot, .inr ⟨hkind, hstarted, hrd⟩⟩, fun hboth => by
        rcases hboth.2 with hs | hs
        · omega
        · exact hs.2.2⟩
    · refine ⟨fun hrd => ⟨hnot, .inl (by omega)⟩, fun hboth => ?_⟩
      rcases hboth.2 with hs | hs
      · omega
      · exact absurd ⟨hs.1, hs.2.1⟩ hnotKind

end ReleaseOf

/-- A booking of which both passes have a release has one, and this is when it is. -/
theorem exists_releaseOf {units : List Sentence} {j k : DateKind} {s e : Date}
    (hstandard : standard.ReleasedOn j s) (hearly : early.ReleasedOn k e) (hinStep : early.InStep)
    (hle : e.day ≤ s.day) (h : allocateTranche config units standard = .ok tranche) :
    ∃ r, (mergeEarly config standard early tranche).latestRelease? = some r
      ∧ ReleaseOf config tranche (j = k) s e r := by
  cases hstart : config.earlyRelease.commencement? tranche with
  | none =>
    rw [mergeEarly_of_none hstart]
    exact ⟨s, hstandard.latestRelease?_eq, .outside (commencement?_eq_none_iff.mp hstart) rfl⟩
  | some commencement =>
    have htranche : tranche ≠ .tranche0 := by
      rintro rfl
      cases hstart
    -- a tranche is only allocated to a release that is not before the scheme
    have hscheme := le_release_of_allocateTranche h htranche hstandard.releaseDate?_eq
    obtain ⟨r, hr, hcases⟩ := hstandard.mergeEarly hearly hinStep hle hstart
    refine ⟨r, hr, ?_⟩
    rcases hcases with ⟨hkind, hstarted, hrelease⟩ | ⟨hnot, hrelease⟩
    · exact .started commencement hstart hscheme hkind hstarted hrelease
    · exact .held commencement hstart hscheme hnot hrelease

theorem latestRelease?_mergeEarly_eq_none (hinStep : early.InStep)
    (hnone : ∀ kind : DateKind, kind.IsRelease →
      standard.date? kind = none ∧ early.date? kind = none) :
    (mergeEarly config standard early tranche).latestRelease? = none := by
  exact latestRelease?_eq_none fun kind hkind =>
    date?_mergeEarly_eq_none hinStep (hnone kind hkind).1 (hnone kind hkind).2

end Outcome

end Custody
