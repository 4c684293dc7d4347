import Custody.Proofs.Unit.Agreement
import Custody.Proofs.Unit.Schemes

/-!
# Home detention curfew of a unit

The two variants are for sentences below a length and from that length on, so no unit has both. A
date of curfew is put back to when the minimum has been served, before the committals that are
served first put it back further. And a variant that is given on both tracks of the early release
scheme or on neither is given to the same units under both assumptions.

* **`CurfewTerms.Adjoin`**, **`Booking.one_curfew_of_adjoin`**: a unit has one variant at most.
* **`CurfewTerms.undelayed_eq_ok`**, **`CurfewTerms.date_eq_ok`**: where the date falls.
* **`CurfewTerms.minimum_le_date`**: the minimum has been served by the date.
* **`Booking.curfew_isSome_eq`**: a unit has the date under both assumptions or under neither.
-/

namespace Custody

open Custody.Calendar

variable {config : Config} {inputs : Inputs} {b : Booking}

theorem Curfew.kind_isEligibility (variant : Curfew) : variant.kind.IsEligibility := by
  cases variant
  · exact .inl rfl
  · exact .inr (.inl rfl)

/-! ## Lengths -/

namespace CurfewTerms

variable {terms : CurfewTerms} {sentencedAt : Date} {days : Int} {years : UInt32}

theorem minimum_le_of_allowsLength (hyears : terms.minimumYears = some years)
    (h : terms.allowsLength sentencedAt days = .ok true) :
    ∃ n, (Duration.of .years years).lengthInDays sentencedAt = .ok n ∧ n ≤ days := by
  unfold allowsLength at h
  split at h
  · cases h
  · simp only [hyears] at h
    obtain ⟨n, hn, h⟩ := Answered.bind_eq_ok.mp h
    split at h
    · cases h
    · next hle => exact ⟨n, hn, by omega⟩

theorem lt_maximum_of_allowsLength (hyears : terms.maximumYears = some years)
    (h : terms.allowsLength sentencedAt days = .ok true) :
    ∃ n, (Duration.of .years years).lengthInDays sentencedAt = .ok n ∧ days < n := by
  -- the greatest length is looked at last, whether there is a least one or not
  have hlast : (do
      let n ← (Duration.of .years years).lengthInDays sentencedAt
      if n ≤ days then pure false else pure true : Answered Bool) = .ok true := by
    unfold allowsLength at h
    simp only [hyears] at h
    split at h
    · cases h
    · split at h
      · obtain ⟨_, _, h⟩ := Answered.bind_eq_ok.mp h
        split at h
        · cases h
        · exact h
      · exact h
  obtain ⟨n, hn, h⟩ := Answered.bind_eq_ok.mp hlast
  split at h
  · cases h
  · next hlt => exact ⟨n, hn, by omega⟩

/-- Some terms end at the length at which others begin. -/
def Adjoin (below above : CurfewTerms) : Prop :=
  ∃ years, below.maximumYears = some years ∧ above.minimumYears = some years

/-- No length is within the limits of both. -/
theorem Adjoin.not_allowsLength {above : CurfewTerms} (hadjoin : terms.Adjoin above)
    (h : terms.allowsLength sentencedAt days = .ok true) :
    above.allowsLength sentencedAt days ≠ .ok true := by
  intro h'
  obtain ⟨years, hbelow, habove⟩ := hadjoin
  obtain ⟨n, hn, hlt⟩ := lt_maximum_of_allowsLength hbelow h
  obtain ⟨n', hn', hle⟩ := minimum_le_of_allowsLength habove h'
  rw [hn] at hn'
  cases hn'
  omega

theorem allowsTracks_of_applies {offender : Offender} {unit : Sentence} {c : UnitCalculation}
    (h : terms.applies offender unit c = .ok true) :
    terms.allowsTracks unit.componentTracks = true := by
  unfold applies at h
  split at h
  · cases h
  · split at h
    · cases h
    · next hallowed => simpa using hallowed

theorem allowsLength_of_applies {offender : Offender} {unit : Sentence} {c : UnitCalculation}
    (h : terms.applies offender unit c = .ok true) :
    terms.allowsLength c.sentencedAt (wrap64 (c.expiryDays - c.botusDaysFirst)) = .ok true := by
  unfold applies at h
  split at h
  · cases h
  · split at h
    · cases h
    · exact h

end CurfewTerms

namespace Booking

variable {entry : TimelineEntry} {c : UnitCalculation}

/-- A unit has a date of curfew exactly when the variant applies to it. -/
theorem curfew_applies (h : b.calculateUnit config inputs entry = .ok c) (variant : Curfew) :
    (variant.terms config).applies b.offender entry.unit c
      = .ok (c.date? variant.kind).isSome := by
  have hfound := breakdown_of_scheme h (curfew_mem_schemes inputs variant)
  rw [(inStep_of_calculateUnit h).date?_eq, Option.isSome_map]
  exact (Eligibility.date?_eq_ok hfound).1

/-- **A unit has one variant at most.** -/
theorem one_curfew_of_adjoin (hadjoin : config.hdced.Adjoin config.hdced4plus)
    (h : b.calculateUnit config inputs entry = .ok c) :
    c.date? .hdced = none ∨ c.date? .hdced4plus = none := by
  cases hbelow : c.date? .hdced with
  | none => exact .inl rfl
  | some d =>
    cases habove : c.date? .hdced4plus with
    | none => exact .inr rfl
    | some d' =>
      have happlies := curfew_applies h .hdced
      have happlies' := curfew_applies h .hdced4plus
      rw [show Curfew.hdced.kind = .hdced from rfl, hbelow] at happlies
      rw [show Curfew.hdced4plus.kind = .hdced4plus from rfl, habove] at happlies'
      -- the length would be below the limit and not below it
      exact absurd (CurfewTerms.allowsLength_of_applies happlies')
        (hadjoin.not_allowsLength (CurfewTerms.allowsLength_of_applies happlies))

end Booking

/-! ## The date -/

namespace CurfewTerms

theorem day_of_afterBotus {d e : Date} {botusDays : Int}
    (h : afterBotus d botusDays = .ok e) : e.day = d.day + max botusDays 0 := by
  unfold afterBotus at h
  split at h
  · rw [Date.plusDays_eq_ok] at h
    omega
  · cases h
    omega

/-- Where the date falls before the minimum and the committals put it back: short of the midpoint
the adjustments put back a number of days, from it on a release. -/
theorem undelayed_eq_ok {terms : CurfewTerms} {variant : Curfew} {c : UnitCalculation}
    {botusDays : Int} {date unadjusted : Date} {rule : Rule}
    (h : terms.undelayed variant c botusDays = .ok (date, unadjusted, rule)) :
    if wrap64 (c.releaseDays - botusDays) < terms.midpointDays then
      ∃ quarterDays, daysAtFraction (wrap64 (c.expiryDays - botusDays)) quarter = .ok quarterDays
        ∧ unadjusted.day = c.sentencedAt.day + max quarterDays terms.minimumEligibilityDays
        ∧ date.day = c.sentencedAt.day
          + wrap64 (max quarterDays terms.minimumEligibilityDays + c.adjustments.custodyDays)
    else ∃ release : Date,
      release.day = c.sentencedAt.day
        + max (wrap64 (wrap64 (c.releaseDays - botusDays) + c.adjustments.custodyDays) - 1) 0
      ∧ date.day = release.day + wrap64 (-terms.deductionDays) := by
  unfold undelayed at h
  -- one case short of the midpoint, and one from it on
  extract_lets custodyDays servedDays beforeDays at h
  split at h
  · next hbelow =>
    simp only [Answered.bind_eq_ok, Answered.pure_eq_ok, Prod.mk.injEq, Date.plusDays_eq_ok] at h
    obtain ⟨quarterDays, hquarter, d, hd, u, hu, rfl, rfl, _⟩ := h
    rw [if_pos hbelow]
    exact ⟨quarterDays, hquarter, hu, hd⟩
  · next habove =>
    simp only [Answered.bind_eq_ok, Answered.pure_eq_ok, Prod.mk.injEq, Date.plusDays_eq_ok] at h
    obtain ⟨release, hrelease, _, _, d, hd, _, _, rfl, _⟩ := h
    rw [if_neg habove]
    exact ⟨release, Date.day_of_lastDay (fits64_wrap64 _) hrelease, hd⟩

/-- **Where the date falls**: not before the minimum, and put back by the committals. -/
theorem date_eq_ok {terms : CurfewTerms} {variant : Curfew} {c : UnitCalculation}
    {botusDays : Int} {found : Breakdown} (h : terms.date variant c botusDays = .ok found) :
    ∃ date unadjusted rule, terms.undelayed variant c botusDays = .ok (date, unadjusted, rule)
      ∧ found.releaseDate.day
        = max date.day (c.sentencedAt.day + terms.minimumCustodialDays) + max botusDays 0 := by
  unfold date at h
  simp only [Answered.bind_eq_ok, Answered.pure_eq_ok] at h
  obtain ⟨⟨date, unadjusted, rule⟩, hdate, earliest, hearliest, release, hrelease, _, _, rfl⟩ := h
  refine ⟨date, unadjusted, rule, hdate, ?_⟩
  have hday := day_of_afterBotus hrelease
  rw [Date.plusDays_eq_ok] at hearliest
  rw [Date.day_max, hearliest] at hday
  -- the rules that are listed after that do not move the date
  rw [← hday]
  split <;> split <;> simp [Breakdown.of]

/-- **The minimum has been served by the date**, wherever the date would be without it. -/
theorem minimum_le_date {terms : CurfewTerms} {variant : Curfew} {c : UnitCalculation}
    {botusDays : Int} {found : Breakdown}
    (h : terms.date variant c botusDays = .ok found) :
    c.sentencedAt.day + terms.minimumCustodialDays ≤ found.releaseDate.day := by
  obtain ⟨_, _, _, _, hday⟩ := date_eq_ok h
  omega

end CurfewTerms

/-! ## Both assumptions -/

theorem Part.Eased.isSdsPart_eq {p q : Part} (h : p.Eased q) :
    Aggregate.isSdsPart p = Aggregate.isSdsPart q := by
  have htrack := h.2
  unfold Aggregate.isSdsPart
  generalize p.track = t, q.track = t' at htrack
  cases htrack with
  | none => rfl
  | some heased => exact heased.isSds_eq

theorem Part.Eased.isBotus_iff {p q : Part} (h : p.Eased q) :
    p.track = some .botus ↔ q.track = some .botus := by
  have htrack := h.2
  generalize p.track = t, q.track = t' at htrack
  cases htrack with
  | none => rfl
  | some heased =>
    cases heased with
    | same => rfl
    | early => decide

/-- The same committals are served first under both assumptions. -/
theorem Aggregate.botusDaysFirst_eased {a a' : Aggregate}
    (h : List.Forall₂ Part.Eased a.parts a'.parts) : a.botusDaysFirst = a'.botusDaysFirst := by
  unfold botusDaysFirst
  generalize a.parts = parts, a'.parts = parts' at h
  have hany : parts.any isSdsPart = parts'.any isSdsPart := by
    induction h with
    | nil => rfl
    | cons hpart _ ih => rw [List.any_cons, List.any_cons, hpart.isSdsPart_eq, ih]
  -- a part that comes first under one assumption does so under the other
  have hdays : totalOf Part.days
        ((parts.takeWhile fun p => !isSdsPart p).filter (·.track = some .botus))
      = totalOf Part.days
        ((parts'.takeWhile fun p => !isSdsPart p).filter (·.track = some .botus)) := by
    clear hany
    induction h with
    | nil => rfl
    | @cons p q _ _ hpart _ ih =>
      have hlength : p.days = q.days := (congrArg Part.days hpart.1 :)
      rw [List.takeWhile_cons, List.takeWhile_cons, hpart.isSdsPart_eq]
      split
      · simp only [List.filter_cons, decide_eq_true_eq, hpart.isBotus_iff]
        split
        · rw [totalOf_cons, totalOf_cons, hlength, ih]
        · exact ih
      · rfl
  rw [hany, hdays]

namespace CurfewTerms

variable {terms : CurfewTerms}

theorem allowsTracks_iff {tracks : List Track} : terms.allowsTracks tracks = true
    ↔ (∃ t ∈ tracks, t ≠ .botus) ∧ (¬ ∃ t ∈ tracks, t ≠ .botus ∧ t ∉ terms.tracks)
      ∧ ¬ (terms.excludesSdsPlusChains = true ∧ ∃ t ∈ tracks, t = .sdsPlus) := by
  simp [allowsTracks, imp_iff_not_or, and_assoc]

/-- Terms that do not tell the tracks of the early release scheme apart. -/
def IgnoresEase (terms : CurfewTerms) : Prop :=
  .sdsStandard ∈ terms.tracks ↔ .sdsEarly ∈ terms.tracks

theorem IgnoresEase.allowsTracks_eq (hterms : terms.IgnoresEase) {tracks tracks' : List Track}
    (h : List.Forall₂ Track.Eased tracks tracks') :
    terms.allowsTracks tracks = terms.allowsTracks tracks' := by
  -- the early track differs from the standard one in nothing that is asked
  have hbotus (t t' : Track) (ht : t.Eased t') : t ≠ .botus ↔ t' ≠ .botus := by
    cases ht with
    | same => rfl
    | early => decide
  have hplus (t t' : Track) (ht : t.Eased t') : t = .sdsPlus ↔ t' = .sdsPlus := by
    cases ht with
    | same => rfl
    | early => decide
  have hgiven (t t' : Track) (ht : t.Eased t') : t ∉ terms.tracks ↔ t' ∉ terms.tracks := by
    cases ht with
    | same => rfl
    | early => exact not_congr hterms
  rw [Bool.eq_iff_iff, allowsTracks_iff, allowsTracks_iff, Track.exists_iff_of_eased hbotus h,
    Track.exists_iff_of_eased hplus h,
    Track.exists_iff_of_eased (fun t t' ht => and_congr (hbotus t t' ht) (hgiven t t' ht)) h]

end CurfewTerms

/-- **A unit has the date under both assumptions or under neither**, and starts on the same date. -/
theorem Booking.curfew_isSome_eq {variant : Curfew} {unit : Sentence} {x y : TimelineEntry}
    {c c' : UnitCalculation} (hterms : (variant.terms config).IgnoresEase)
    (hs : ClassifiedAs config inputs .standard unit x.unit)
    (he : ClassifiedAs config inputs .early unit y.unit)
    (hc : b.calculateUnit config inputs x = .ok c)
    (hc' : b.calculateUnit config inputs y = .ok c') :
    c.sentencedAt = c'.sentencedAt
      ∧ (c.date? variant.kind).isSome = (c'.date? variant.kind).isSome := by
  obtain ⟨_, _, a, m, _, _, hm, hdated, _⟩ := calculateUnit_dated hc
  obtain ⟨_, _, a', m', _, _, hm', hdated', _⟩ := calculateUnit_dated hc'
  obtain ⟨huntracked, hparts⟩ := hs.aggregate_eased he hm.aggregate hm'.aggregate
  -- the counts that the scheme looks at come from the layout alone
  have hsentenced : c.sentencedAt = c'.sentencedAt := by
    show c.undated.sentencedAt = c'.undated.sentencedAt
    rw [hdated.undated, hdated'.undated, hm.sentencedAt, hm'.sentencedAt]
    exact (congrArg Aggregate.sentencedAt huntracked :)
  have hexpiry : c.expiryDays = c'.expiryDays := by
    show c.undated.expiryDays = c'.undated.expiryDays
    rw [hdated.undated, hdated'.undated, hm.expiryDays, hm'.expiryDays]
    exact (congrArg Aggregate.totalDays huntracked :)
  have hbotus : c.botusDaysFirst = c'.botusDaysFirst := by
    show c.undated.botusDaysFirst = c'.undated.botusDaysFirst
    rw [hdated.undated, hdated'.undated, hm.botusDaysFirst, hm'.botusDaysFirst]
    exact Aggregate.botusDaysFirst_eased hparts
  have happlies := curfew_applies hc variant
  have happlies' := curfew_applies hc' variant
  unfold CurfewTerms.applies at happlies happlies'
  rw [Sentence.recallType_eq_of_untracked_eq (hs.untracked_eq.trans he.untracked_eq.symm),
    hterms.allowsTracks_eq (hs.componentTracks_eased he), hsentenced, hexpiry, hbotus,
    happlies'] at happlies
  exact ⟨hsentenced, (Except.ok.inj happlies).symm⟩

/-- **The minimum has been served by the date of curfew of a unit.** -/
theorem Booking.minimum_le_curfew {variant : Curfew} {entry : TimelineEntry} {c : UnitCalculation}
    (h : b.calculateUnit config inputs entry = .ok c) {d : Date}
    (hd : c.date? variant.kind = some d) :
    c.sentencedAt.day + (variant.terms config).minimumCustodialDays ≤ d.day := by
  have hfound := breakdown_of_scheme h (curfew_mem_schemes inputs variant)
  rw [(inStep_of_calculateUnit h).date?_eq, Option.map_eq_some_iff] at hd
  obtain ⟨found, hkind, rfl⟩ := hd
  exact CurfewTerms.minimum_le_date ((Eligibility.date?_eq_ok hfound).2 found hkind)

/-! ## England and Wales -/

namespace EnglandAndWales

theorem curfews_adjoin : hdced.Adjoin hdced4plus := ⟨4, rfl, rfl⟩

theorem hdced_ignoresEase : hdced.IgnoresEase := by
  unfold CurfewTerms.IgnoresEase
  decide

end EnglandAndWales

end Custody
