import Custody.Proofs.Outcome.Agreement
import Custody.Proofs.Outcome.MergedEntries

/-!
# Bookings that agree besides dates of schemes

No date of a scheme is looked at on the way to another date: each kind goes through the booking and
the merge by itself, next to expiry and release, and no scheme gives either of these. So what units
agree on besides the dates of some schemes, the bookings of them agree on.

* **`UnitCalculation.AgreeBut`**, **`Outcome.AgreeBut`**: agreement besides some kinds of dates.
* **`ofUnits_agreeBut`**, **`AgreeBut.mergeEarly`**: it is kept by what follows the units.
-/

namespace Custody

open Custody.Calendar

/-- Two calculations of a unit that have the same dates with the same breakdowns, besides those of
some kinds. -/
structure UnitCalculation.AgreeBut (kinds : List DateKind) (c c' : UnitCalculation) : Prop where
  sentencedAt : c.sentencedAt = c'.sentencedAt
  breakdown : ∀ kind ∉ kinds, c.breakdowns.get? kind = c'.breakdowns.get? kind
  date : ∀ kind ∉ kinds, c.date? kind = c'.date? kind

/-- Two outcomes that are the same besides the dates of some kinds and their breakdowns. -/
structure Outcome.AgreeBut (kinds : List DateKind) (o o' : Outcome) : Prop where
  date : ∀ kind ∉ kinds, o.date? kind = o'.date? kind
  breakdown : ∀ kind ∉ kinds, o.breakdown? kind = o'.breakdown? kind
  otherDates : o.otherDates = o'.otherDates
  effectiveLength : o.effectiveLength = o'.effectiveLength
  tranche : o.tranche = o'.tranche

/-- Kinds of dates that schemes give. -/
def DateKind.OfSchemes (kinds : List DateKind) : Prop :=
  ∀ kind ∈ kinds, ∃ e : Eligibility, e.kind = kind

namespace DateKind.OfSchemes

variable {kinds : List DateKind} {kind : DateKind}

theorem notMem_of_isRelease (h : OfSchemes kinds) (hkind : kind.IsRelease) : kind ∉ kinds := by
  intro hmem
  obtain ⟨e, rfl⟩ := h kind hmem
  exact e.kind_not.2 hkind

theorem notMem_of_notMem (h : OfSchemes kinds) (hkind : kind ∉ earlyReleaseSensitive) :
    kind ∉ kinds := by
  intro hmem
  obtain ⟨e, rfl⟩ := h kind hmem
  exact hkind e.kind_mem

end DateKind.OfSchemes

namespace Outcome

variable {kinds : List DateKind} {units units' : List UnitCalculation}

/-! ## From units to the booking -/

theorem latest?_agreeBut (hunits : List.Forall₂ (UnitCalculation.AgreeBut kinds) units units')
    {among : List DateKind} (hamong : ∀ kind ∈ among, kind ∉ kinds) :
    latest? among units = latest? among units' :=
  latest?_congr (hunits.imp fun _ _ hagree kind hkind => hagree.breakdown kind (hamong kind hkind))

theorem release?_agreeBut (hkinds : DateKind.OfSchemes kinds)
    (hunits : List.Forall₂ (UnitCalculation.AgreeBut kinds) units units') :
    release? units = release? units' := by
  have hlatest {kind : DateKind} (hrelease : kind.IsRelease) :
      latest? [kind] units = latest? [kind] units' := by
    refine latest?_agreeBut hunits fun j hj => ?_
    rw [List.mem_singleton.mp hj]
    exact hkinds.notMem_of_isRelease hrelease
  unfold release?
  rw [hlatest (.inl rfl), hlatest (.inr rfl)]

theorem concurrentRelease?_agreeBut (hkinds : DateKind.OfSchemes kinds)
    (hunits : List.Forall₂ (UnitCalculation.AgreeBut kinds) units units') {kind : DateKind}
    (hkind : kind ∉ kinds) : concurrentRelease? kind units = concurrentRelease? kind units' := by
  -- the units without such a date are the same, and release is not of these kinds
  have hreleases : (units.filter (·.date? kind |>.isNone)).filterMap (·.releaseDate?)
      = (units'.filter (·.date? kind |>.isNone)).filterMap (·.releaseDate?) := by
    induction hunits with
    | nil => rfl
    | @cons c c' _ _ hagree _ ih =>
      have hrelease : c.releaseDate? = c'.releaseDate? := by
        unfold UnitCalculation.releaseDate?
        rw [hagree.date .crd (hkinds.notMem_of_isRelease (.inl rfl)),
          hagree.date .ard (hkinds.notMem_of_isRelease (.inr rfl))]
      rw [List.filter_cons, List.filter_cons, hagree.date kind hkind]
      split
      · rw [List.filterMap_cons, List.filterMap_cons, hrelease, ih]
      · exact ih
  unfold concurrentRelease?
  rw [hreleases]

theorem latestRaised?_agreeBut (hkinds : DateKind.OfSchemes kinds)
    (hunits : List.Forall₂ (UnitCalculation.AgreeBut kinds) units units') {kind : DateKind}
    (hkind : kind ∉ kinds) (rule : Rule) :
    latestRaised? kind rule units = latestRaised? kind rule units' := by
  have hlatest : latest? [kind] units = latest? [kind] units' := by
    refine latest?_agreeBut hunits fun j hj => ?_
    rwa [List.mem_singleton.mp hj]
  unfold latestRaised?
  rw [hlatest, concurrentRelease?_agreeBut hkinds hunits hkind]

/-- What is recorded of a kind besides those is the same. -/
theorem otherEntries_agreeBut (hkinds : DateKind.OfSchemes kinds)
    (hunits : List.Forall₂ (UnitCalculation.AgreeBut kinds) units units') (expiry : Breakdown)
    {kind : DateKind} (hkind : kind ∉ kinds) {b : Option Breakdown}
    (h : (kind, b) ∈ otherEntries expiry units) : (kind, b) ∈ otherEntries expiry units' := by
  have hrelease := release?_agreeBut hkinds hunits
  have hraised (rule : Rule) := latestRaised?_agreeBut hkinds hunits hkind rule
  have hlatest : latest? [kind] units = latest? [kind] units' := by
    refine latest?_agreeBut hunits fun j hj => ?_
    rwa [List.mem_singleton.mp hj]
  simp only [otherEntries, List.mem_cons, List.not_mem_nil, or_false, Prod.mk.injEq,
    Curfew.kind] at h ⊢
  rw [← hrelease]
  rcases h with ⟨rfl, rfl⟩ | ⟨rfl, rfl⟩ | ⟨rfl, rfl⟩ | ⟨rfl, rfl⟩ | ⟨rfl, rfl⟩ | ⟨rfl, rfl⟩
  all_goals simp [hraised, hlatest]

theorem ofBreakdowns_agreeBut (hkinds : DateKind.OfSchemes kinds)
    (hunits : List.Forall₂ (UnitCalculation.AgreeBut kinds) units units') (expiry : Breakdown)
    {kind : DateKind} (hkind : kind ∉ kinds) :
    (ofBreakdowns expiry units).breakdown? kind = (ofBreakdowns expiry units').breakdown? kind := by
  have hlicence : latest? [.sled, .led] units = latest? [.sled, .led] units' := by
    refine latest?_agreeBut hunits fun j hj => hkinds.notMem_of_notMem ?_
    revert j
    decide
  rw [ofBreakdowns_eq, ofBreakdowns_eq, ← release?_agreeBut hkinds hunits, ← hlicence]
  -- the other dates are recorded last, so that they hide what was there before
  by_cases hother : kind ∈ (otherEntries expiry units).map Prod.fst
  · obtain ⟨⟨_, b⟩, hentry, rfl⟩ := List.mem_map.mp hother
    rw [breakdown?_recordAll_of_mem (by rw [map_fst_otherEntries]; decide) hentry,
      breakdown?_recordAll_of_mem (by rw [map_fst_otherEntries]; decide)
        (otherEntries_agreeBut hkinds hunits expiry hkind hentry)]
  · rw [breakdown?_recordAll_of_notMem hother, breakdown?_recordAll_of_notMem]
    rwa [map_fst_otherEntries] at hother ⊢

/-- **Bookings of units that agree besides dates of schemes do so as well.** -/
theorem ofUnits_agreeBut (hkinds : DateKind.OfSchemes kinds)
    (hunits : List.Forall₂ (UnitCalculation.AgreeBut kinds) units units') {o o' : Outcome}
    (h : ofUnits units = .ok o) (h' : ofUnits units' = .ok o') : AgreeBut kinds o o' := by
  have hagree : List.Forall₂ UnitCalculation.Agree units units' :=
    hunits.imp fun _ _ hagree =>
      ⟨hagree.sentencedAt, fun kind hkind => hagree.breakdown kind (hkinds.notMem_of_notMem hkind)⟩
  obtain ⟨_, hother, hlength⟩ := ofUnits_agree hagree h h'
  have hstep := (ofUnits_extracted h).inStep
  have hstep' := (ofUnits_extracted h').inStep
  -- both start from the same expiry, which no scheme moves
  have hexpiry : latest? [.sled, .sed] units = latest? [.sled, .sed] units' := by
    refine latest?_agreeBut hunits fun j hj => hkinds.notMem_of_notMem ?_
    revert j
    decide
  have hbreakdown (kind : DateKind) (hkind : kind ∉ kinds) :
      o.breakdown? kind = o'.breakdown? kind := by
    obtain ⟨_, expiry, _, _, _, hfirst, _, _, rfl⟩ := ofUnits_eq_ok.mp h
    obtain ⟨_, expiry', _, _, _, hfirst', _, _, rfl⟩ := ofUnits_eq_ok.mp h'
    rw [hexpiry, hfirst'] at hfirst
    cases hfirst
    exact ofBreakdowns_agreeBut hkinds hunits expiry hkind
  refine ⟨fun kind hkind => ?_, hbreakdown, hother, hlength, ?_⟩
  · rw [hstep.date?_eq, hstep'.date?_eq, hbreakdown kind hkind]
  · rw [tranche_ofUnits h, tranche_ofUnits h']

/-! ## The merge -/

variable {config : Config} {standard standard' early early' : Outcome} {tranche : Tranche}

theorem AgreeBut.replacement?_eq (hs : AgreeBut kinds standard standard')
    (he : AgreeBut kinds early early') {kind : DateKind} (hkind : kind ∉ kinds)
    (commencement : Date) : replacement? commencement standard early kind
      = replacement? commencement standard' early' kind := by
  unfold replacement?
  rw [hs.date kind hkind, he.breakdown kind hkind]

/-- **The merge goes through the kinds one by one.** -/
theorem AgreeBut.mergeEarly (hs : AgreeBut kinds standard standard')
    (he : AgreeBut kinds early early') (hstep : standard.InStep) (hstep' : standard'.InStep) :
    AgreeBut kinds (mergeEarly config standard early tranche)
      (mergeEarly config standard' early' tranche) := by
  have hbreakdown (kind : DateKind) (hkind : kind ∉ kinds) :
      (Outcome.mergeEarly config standard early tranche).breakdown? kind
        = (Outcome.mergeEarly config standard' early' tranche).breakdown? kind := by
    -- either the kind is left to the standard outcome, or it has one entry
    by_cases hsensitive : kind ∈ DateKind.earlyReleaseSensitive
    · cases hstart : config.earlyRelease.commencement? tranche with
      | none =>
        rw [mergeEarly_of_none hstart, mergeEarly_of_none hstart]
        exact hs.breakdown kind hkind
      | some commencement =>
        have hentry (s e : Outcome) : (kind, replacement? commencement s e kind)
            ∈ DateKind.earlyReleaseSensitive.map fun kind =>
              (kind, replacement? commencement s e kind) :=
          List.mem_map.mpr ⟨kind, hsensitive, rfl⟩
        rw [mergeEarly_of_some hstart, mergeEarly_of_some hstart,
          breakdown?_recordAll_of_mem (by rw [map_fst_entries]; decide) (hentry standard early),
          breakdown?_recordAll_of_mem (by rw [map_fst_entries]; decide) (hentry standard' early'),
          hs.replacement?_eq he hkind]
        exact congrArg _ (hs.breakdown kind hkind)
    · rw [breakdown?_mergeEarly_of_notMem hsensitive, breakdown?_mergeEarly_of_notMem hsensitive,
        hs.breakdown kind hkind]
  refine ⟨fun kind hkind => ?_, hbreakdown, ?_, ?_, ?_⟩
  · rw [hstep.mergeEarly.date?_eq, hstep'.mergeEarly.date?_eq, hbreakdown kind hkind]
  · rw [otherDates_mergeEarly, otherDates_mergeEarly, hs.otherDates]
  · rw [effectiveLength_mergeEarly, effectiveLength_mergeEarly, hs.effectiveLength]
  · rw [tranche_mergeEarly, tranche_mergeEarly]

end Outcome

end Custody
