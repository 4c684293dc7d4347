import Custody.Proofs.Unit.CurfewDate
import Custody.Proofs.Unit.Eased
import Custody.Proofs.Unit.Explained
import Custody.Proofs.Unit.Served

/-!
# Committals that are served first

Committals for breach of supervision may be served before standard determinate sentences, one after
the other. Their days are taken off every count that curfew is worked out from, and added to the
date afterwards. So curfew of such a chain is that of its sentences alone, put back by the days of
the committals, as long as the days to release come apart in the same way. They are a sum of
fractions that is rounded up once, and come apart wherever there is room for the sum.

* **`Sentence.InTurn`**: committals and then standard determinate sentences, all counting days.
* **`CurfewTerms.date_putBackBy`**: the date of curfew from counts that differ by the committals.
* **`Booking.committals_put_back_curfew`**: curfew of a chain with committals and without.
-/

namespace Custody

open Custody.Calendar

section

variable {config : Config} {inputs : Inputs} {assumption : Assumption} {offender : Offender}

/-! ## On their tracks -/

/-- A single sentence before and after it is put on its track. -/
def Single.PutOnTrack (config : Config) (inputs : Inputs) (assumption : Assumption)
    (before after : Single) : Prop :=
  ∃ track, before.trackFor config inputs assumption = .ok track
    ∧ after = { before with track := some track }

/-- The components of a classified sentence are its components on their tracks. -/
theorem ClassifiedAs.exists_components {before after : Sentence} {ss : List Single}
    (h : ClassifiedAs config inputs assumption before after)
    (hbefore : before.components = ss.map .single) :
    ∃ ss', after.components = ss'.map .single
      ∧ List.Forall₂ (Single.PutOnTrack config inputs assumption) ss ss' := by
  have hparts := h.components
  rw [hbefore, List.forall₂_map_left_iff] at hparts
  -- by induction on the components, of which each is put on its track
  clear h hbefore
  generalize after.components = parts at hparts
  induction hparts with
  | nil => exact ⟨[], rfl, .nil⟩
  | cons hpart _ ih =>
    obtain ⟨s, track, hs, htrack, rfl⟩ := hpart
    cases hs
    obtain ⟨ss', rfl, hrest⟩ := ih
    exact ⟨_ :: ss', rfl, .cons ⟨track, htrack, rfl⟩ hrest⟩

/-- There is one track for each. -/
theorem Single.eq_of_putOnTrack {ss xs ys : List Single}
    (hx : List.Forall₂ (PutOnTrack config inputs assumption) ss xs)
    (hy : List.Forall₂ (PutOnTrack config inputs assumption) ss ys) : xs = ys := by
  rw [← List.forall₂_eq_eq_eq]
  refine (Answered.forall₂_of_common hx hy).imp fun x y hboth => ?_
  obtain ⟨s, _, ⟨track, htrack, rfl⟩, ⟨track', htrack', rfl⟩⟩ := hboth
  rw [htrack] at htrack'
  cases htrack'
  rfl

/-- Committals and then standard determinate sentences, which count days and were passed on one
date. -/
structure Single.Consecutive (date : Date) (committals terms : List Single) : Prop where
  terms_ne_nil : terms ≠ []
  botus : ∀ s ∈ committals, ∃ duration, s.term = .botus duration
  standard : ∀ s ∈ terms, ∃ t, s.term = .standard t
  counts : ∀ s ∈ committals ++ terms, s.CountsDays date

/-- A sentence of such components, which are on their tracks. -/
structure Sentence.InTurn (unit : Sentence) (date : Date) (committals terms : List Single) : Prop
    extends unit.CountsDays date (committals ++ terms) where
  terms_ne_nil : terms ≠ []
  botus : ∀ s ∈ committals, s.track = some .botus
  sds : ∀ s ∈ terms, ∃ track, s.track = some track ∧ track.isSds = true

namespace Single

variable {s s' : Single}

theorem PutOnTrack.term_eq (h : s.PutOnTrack config inputs assumption s') : s'.term = s.term := by
  obtain ⟨_, _, rfl⟩ := h
  rfl

/-- A committal that is not recalled is on the track of committals. -/
theorem PutOnTrack.track_of_botus (h : s.PutOnTrack config inputs assumption s')
    (hrecall : s.recallType = .notRecalled) {duration : Duration}
    (hterm : s.term = .botus duration) :
    s'.track = some .botus := by
  obtain ⟨track, htrack, rfl⟩ := h
  rcases trackFor_cases htrack with ⟨hrecalled, _⟩ | ⟨_, hbotus⟩
  · rw [hrecall] at hrecalled
    cases hrecalled
  · rw [hterm] at hbotus
    exact congrArg some hbotus

/-- A standard determinate sentence that is not recalled is on a track of such. -/
theorem PutOnTrack.track_of_standard (h : s.PutOnTrack config inputs assumption s')
    (hrecall : s.recallType = .notRecalled) {t : StandardTerm} (hterm : s.term = .standard t) :
    ∃ track, s'.track = some track ∧ track.isSds = true := by
  obtain ⟨track, htrack, rfl⟩ := h
  rcases trackFor_cases htrack with ⟨hrecalled, _⟩ | ⟨_, hstandard⟩
  · rw [hrecall] at hrecalled
    cases hrecalled
  · rw [hterm] at hstandard
    exact ⟨track, rfl, standardTrack_isSds hstandard⟩

theorem dayTotal_of_putOnTrack {ss ss' : List Single}
    (h : List.Forall₂ (PutOnTrack config inputs assumption) ss ss') :
    dayTotal ss' = dayTotal ss := by
  induction h with
  | nil => rfl
  | cons hput _ ih => rw [dayTotal_cons, dayTotal_cons, ih, hput.term_eq]

/-- Sentences that count days do so on their tracks. -/
theorem countsDays_of_putOnTrack {date : Date} {ss ss' : List Single}
    (h : List.Forall₂ (PutOnTrack config inputs assumption) ss ss')
    (hss : ∀ s ∈ ss, s.CountsDays date) : ∀ s ∈ ss', s.CountsDays date := by
  intro s' hs'
  obtain ⟨s, hs, track, _, rfl⟩ := Answered.exists_of_mem_right h hs'
  exact ⟨(hss s hs).sentencedAt, (hss s hs).notRecalled, (hss s hs).lasts⟩

end Single

/-- A chain of such components is classified as one. -/
theorem Single.Consecutive.inTurn {date : Date} {committals terms committals' terms' : List Single}
    (h : Consecutive date committals terms) {unit : Sentence}
    (hcomponents : unit.components = (committals' ++ terms').map .single)
    (hcommittals : List.Forall₂ (PutOnTrack config inputs assumption) committals committals')
    (hterms : List.Forall₂ (PutOnTrack config inputs assumption) terms terms') :
    unit.InTurn date committals' terms' := by
  have hne : terms' ≠ [] := by
    rintro rfl
    cases hterms
    exact h.terms_ne_nil rfl
  refine ⟨⟨hcomponents, List.append_ne_nil_of_right_ne_nil committals' hne,
    countsDays_of_putOnTrack (List.rel_append hcommittals hterms) h.counts⟩, hne, ?_, ?_⟩
  · intro s' hs'
    obtain ⟨s, hs, hput⟩ := Answered.exists_of_mem_right hcommittals hs'
    obtain ⟨duration, hterm⟩ := h.botus s hs
    have hcounts := h.counts s (List.mem_append_left terms hs)
    exact hput.track_of_botus hcounts.notRecalled hterm
  · intro s' hs'
    obtain ⟨s, hs, hput⟩ := Answered.exists_of_mem_right hterms hs'
    obtain ⟨t, hterm⟩ := h.standard s hs
    have hcounts := h.counts s (List.mem_append_right committals hs)
    exact hput.track_of_standard hcounts.notRecalled hterm

/-- Without the committals there are the same sentences. -/
theorem Single.Consecutive.alone {date : Date} {committals terms : List Single}
    (h : Consecutive date committals terms) : Consecutive date [] terms where
  terms_ne_nil := h.terms_ne_nil
  botus _ hs := absurd hs List.not_mem_nil
  standard := h.standard
  counts s hs := h.counts s (List.mem_append_right committals hs)

/-- A chain of committals and sentences is classified with the same tracks as the sentences
alone. -/
theorem Single.Consecutive.exists_inTurn {date : Date} {committals terms : List Single}
    {chain alone unit unit' : Sentence} (h : Consecutive date committals terms)
    (hchain : chain.components = (committals ++ terms).map .single)
    (halone : alone.components = terms.map .single)
    (hunit : ClassifiedAs config inputs assumption chain unit)
    (hunit' : ClassifiedAs config inputs assumption alone unit') :
    ∃ committals' terms', dayTotal committals' = dayTotal committals
      ∧ unit.InTurn date committals' terms' ∧ unit'.InTurn date [] terms' := by
  obtain ⟨all, hall, hput⟩ := hunit.exists_components hchain
  obtain ⟨terms', halone', hterms⟩ := hunit'.exists_components halone
  -- what is classified falls into the same two parts
  obtain ⟨committals', rest, hcommittals, hrest, rfl⟩ : ∃ committals' rest,
      List.Forall₂ (PutOnTrack config inputs assumption) committals committals'
        ∧ List.Forall₂ (PutOnTrack config inputs assumption) terms rest
        ∧ all = committals' ++ rest :=
    ⟨_, _, (List.forall₂_take_append all committals terms hput.flip).flip,
      (List.forall₂_drop_append all committals terms hput.flip).flip,
      (List.take_append_drop committals.length all).symm⟩
  -- the sentences are put on the same tracks behind the committals and alone
  obtain rfl := eq_of_putOnTrack hrest hterms
  have hfront : unit'.components = ([] ++ rest).map .single := halone'
  exact ⟨committals', rest, dayTotal_of_putOnTrack hcommittals, h.inTurn hall hcommittals hrest,
    h.alone.inTurn hfront .nil hrest⟩

/-! ## Counts -/

/-- The counts of a unit with committals of so many days in front, beside those of the unit without
them. Both are released within their days. -/
structure UnitCalculation.AfterCommittals (days : Nat) (c c' : UnitCalculation) : Prop where
  sentencedAt : c.sentencedAt = c'.sentencedAt
  expiryDays : c.expiryDays = days + c'.expiryDays
  botusDaysFirst : c.botusDaysFirst = days
  botusDaysFirst_eq_zero : c'.botusDaysFirst = 0
  adjustments : c.adjustments = c'.adjustments
  releaseDays : 0 ≤ c.releaseDays ∧ c.releaseDays ≤ c.expiryDays
  releaseDays_alone : 0 ≤ c'.releaseDays ∧ c'.releaseDays ≤ c'.expiryDays
  expiryDays_le : c.expiryDays ≤ 200000000

theorem UnitCalculation.AfterCommittals.of_undated {days : Nat} {m m' c c' : UnitCalculation}
    (h : m.AfterCommittals days m') (hc : c.undated = m) (hc' : c'.undated = m') :
    c.AfterCommittals days c' := by
  subst hc hc'
  exact { h with }

namespace Sentence.InTurn

variable {unit alone : Sentence} {date : Date} {committals terms : List Single}
variable {adjustments : AppliedAdjustments} {track track' : Track} {a a' : Aggregate}
variable {m m' : UnitCalculation}

/-- Such a unit is not on the track of recalls. -/
theorem ne_recall {before : Sentence} (h : unit.InTurn date committals terms)
    (hclassified : ClassifiedAs config inputs assumption before unit)
    (htrack : unit.track? = some track) : track ≠ .recall := by
  rintro rfl
  have hrecall := hclassified.isRecall_of_track htrack
  rw [h.recallType_eq] at hrecall
  cases hrecall

/-- Whether the tracks allow curfew does not depend on the committals. -/
theorem allowsTracks_eq (curfew : CurfewTerms) (h : unit.InTurn date committals terms)
    (h' : alone.InTurn date [] terms) :
    curfew.allowsTracks unit.componentTracks = curfew.allowsTracks alone.componentTracks := by
  -- the components in front are on the track of committals, which is not asked for
  have hexists (P : Track → Prop) (hbotus : ¬ P .botus) :
      (∃ t ∈ unit.componentTracks, P t) ↔ ∃ t ∈ alone.componentTracks, P t := by
    rw [h.componentTracks_eq, h'.componentTracks_eq, List.filterMap_append, List.nil_append]
    refine exists_congr fun t => and_congr_left fun ht => ?_
    rw [List.mem_append, or_iff_right]
    intro hmem
    obtain ⟨s, hs, hst⟩ := List.mem_filterMap.mp hmem
    rw [h.botus s hs] at hst
    cases hst
    exact hbotus ht
  rw [Bool.eq_iff_iff, CurfewTerms.allowsTracks_iff, CurfewTerms.allowsTracks_iff,
    hexists (· ≠ .botus) (not_not.mpr rfl), hexists (· = .sdsPlus) (by decide),
    hexists (fun t => t ≠ .botus ∧ t ∉ curfew.tracks) fun hbotus => hbotus.1 rfl]

/-- **The counts of committals and then sentences.** -/
theorem measured_counts (h : unit.InTurn date committals terms)
    (hm : Measured config adjustments track unit a m) :
    m.sentencedAt = date ∧ m.expiryDays = dayTotal committals + dayTotal terms
      ∧ m.botusDaysFirst = dayTotal committals := by
  have hlaid := h.laidOut hm.aggregate
  have hspans := hlaid.spans
  refine ⟨hm.sentencedAt.trans hlaid.sentencedAt, ?_, ?_⟩
  · rw [hm.expiryDays, hlaid.totalDays, dayTotal_append, Int.natCast_add]
  · -- the parts of the committals are the first ones
    obtain ⟨front, back, hparts, hfront, hback⟩ : ∃ front back, a.parts = front ++ back
        ∧ List.Forall₂ Part.Spans front committals ∧ List.Forall₂ Part.Spans back terms :=
      ⟨_, _, (List.take_append_drop committals.length a.parts).symm,
        List.forall₂_take_append a.parts committals terms hspans,
        List.forall₂_drop_append a.parts committals terms hspans⟩
    rw [hm.botusDaysFirst, Aggregate.botusDaysFirst_append hparts,
      Part.totalOf_of_spans (fun _ _ hpart => hpart.days) hfront]
    · intro p hp
      obtain ⟨s, hs, hpart⟩ := Answered.exists_of_mem_right hfront.flip hp
      rw [hpart.track, h.botus s hs]
    · intro p hp
      obtain ⟨s, hs, hpart⟩ := Answered.exists_of_mem_right hback.flip hp
      obtain ⟨t, ht, hsds⟩ := h.sds s hs
      rw [Aggregate.isSdsPart, hpart.track, ht]
      exact hsds
    · rintro rfl
      cases hback
      exact h.terms_ne_nil rfl

/-- **The days to release come apart where there is room.** -/
theorem releaseDays_of_room {places : Nat} (h : unit.InTurn date committals terms)
    (hbotus : config.releasePoints.fraction .botus = 1) (hrecall : track ≠ .recall)
    (hroom : config.releasePoints.HasRoom (committals ++ terms) places)
    (hm : Measured config adjustments track unit a m) :
    m.releaseDays = dayTotal committals
      + ⌈(terms.map config.releasePoints.shareOf).sum⌉ := by
  have hspans := (h.laidOut hm.aggregate).spans
  rw [daysToRelease_of_room hrecall hspans hroom hm.releaseDays, List.map_append, List.sum_append,
    ReleasePoints.sum_shareOf_of_track h.botus, hbotus, mul_one, Int.ceil_natCast_add]

/-- The counts of such a unit beside those of its sentences alone. -/
theorem afterCommittals (h : unit.InTurn date committals terms) (h' : alone.InTurn date [] terms)
    (hpoints : config.releasePoints.AreFractions)
    (hm : Measured config adjustments track unit a m)
    (hm' : Measured config adjustments track' alone a' m') :
    m.AfterCommittals (dayTotal committals) m' := by
  obtain ⟨hsentenced, hexpiry, hfirst⟩ := h.measured_counts hm
  obtain ⟨hsentenced', hexpiry', hfirst'⟩ := h'.measured_counts hm'
  have hnone : dayTotal [] = 0 := rfl
  rw [hnone, Int.natCast_zero] at hexpiry' hfirst'
  -- release is within the whole, with the committals and without them
  have hbounds := daysToRelease_bounds hpoints (aggregate_contiguous hm.aggregate) hm.releaseDays
  have hbounds' := daysToRelease_bounds hpoints (aggregate_contiguous hm'.aggregate) hm'.releaseDays
  refine ⟨hsentenced.trans hsentenced'.symm, ?_, hfirst, hfirst',
    hm.adjustments_eq.trans hm'.adjustments_eq.symm, hm.expiryDays ▸ hbounds,
    hm'.expiryDays ▸ hbounds', hm.expiryDays ▸ Date.daysUntil_le_range _ _⟩
  rw [hexpiry, hexpiry', Int.zero_add]

end Sentence.InTurn

/-! ## The date -/

/-- A breakdown beside one of which both dates are so many days earlier. -/
structure Breakdown.PutBackBy (days : Nat) (b b' : Breakdown) : Prop where
  releaseDate : b.releaseDate.day = b'.releaseDate.day + days
  unadjustedDate : b.unadjustedDate.day = b'.unadjustedDate.day + days
  adjustedDays : b.adjustedDays = b'.adjustedDays

namespace CurfewTerms

variable {terms : CurfewTerms} {days : Nat} {c c' : UnitCalculation} {variant : Curfew}

/-- The days to release come apart into those of the committals and those of the unit without them,
as far as curfew looks at them: short of the midpoint it does not. -/
def ComesApart (terms : CurfewTerms) (days : Nat) (c c' : UnitCalculation) : Prop :=
  c.releaseDays = days + c'.releaseDays
    ∨ c.releaseDays - days < terms.midpointDays ∧ c'.releaseDays < terms.midpointDays

/-- The unadjusted date is put back by the committals too, and by nothing else. -/
theorem unadjustedDate_eq_ok {botusDays : Int} {found : Breakdown}
    (h : terms.date variant c botusDays = .ok found) :
    ∃ date unadjusted rule, terms.undelayed variant c botusDays = .ok (date, unadjusted, rule)
      ∧ found.unadjustedDate.day = unadjusted.day + max botusDays 0 := by
  unfold date at h
  simp only [Answered.bind_eq_ok, Answered.pure_eq_ok] at h
  obtain ⟨⟨date, unadjusted, rule⟩, hdate, _, _, _, _, release, hrelease, rfl⟩ := h
  refine ⟨date, unadjusted, rule, hdate, ?_⟩
  rw [← day_of_afterBotus hrelease]
  -- the rules that are listed do not move it
  split <;> split <;> simp [Breakdown.of]

/-- Without the days of the committals the date is that of the unit without them. -/
theorem undelayed_afterCommittals (h : c.AfterCommittals days c')
    (hapart : terms.ComesApart days c c') :
    terms.undelayed variant c c.botusDaysFirst
      = terms.undelayed variant c' c'.botusDaysFirst := by
  have hlength : c.expiryDays - c.botusDaysFirst = c'.expiryDays - c'.botusDaysFirst := by
    rw [h.expiryDays, h.botusDaysFirst, h.botusDaysFirst_eq_zero]
    omega
  unfold undelayed
  rw [hlength, h.sentencedAt, h.adjustments]
  rcases hapart with hrelease | ⟨hbelow, hbelow'⟩
  · have hserved : c.releaseDays - c.botusDaysFirst = c'.releaseDays - c'.botusDaysFirst := by
      rw [hrelease, h.botusDaysFirst, h.botusDaysFirst_eq_zero]
      omega
    rw [hserved]
  · rw [← h.botusDaysFirst] at hbelow
    rw [← Int.sub_zero c'.releaseDays, ← h.botusDaysFirst_eq_zero] at hbelow'
    -- so few days are not cut
    have hexpiry := h.expiryDays
    have hfirst := h.botusDaysFirst
    have hfirst' := h.botusDaysFirst_eq_zero
    have hrelease := h.releaseDays
    have hrelease' := h.releaseDays_alone
    have hroom := h.expiryDays_le
    rw [wrap64_of_small (n := c.releaseDays - c.botusDaysFirst) (by omega) (by omega),
      wrap64_of_small (n := c'.releaseDays - c'.botusDaysFirst) (by omega) (by omega)]
    simp only [if_pos hbelow, if_pos hbelow']

/-- **The date is put back by the days of the committals**, adjusted or not. -/
theorem date_putBackBy (h : c.AfterCommittals days c') (hapart : terms.ComesApart days c c')
    {b b' : Breakdown} (hb : terms.date variant c c.botusDaysFirst = .ok b)
    (hb' : terms.date variant c' c'.botusDaysFirst = .ok b') : b.PutBackBy days b' := by
  have hsame : terms.undelayed variant c c.botusDaysFirst
      = terms.undelayed variant c' c'.botusDaysFirst := undelayed_afterCommittals h hapart
  have hmax : max (days : Int) 0 = days := max_eq_left (Int.natCast_nonneg days)
  obtain ⟨date, _, _, hdate, hday⟩ := date_eq_ok hb
  obtain ⟨date', _, _, hdate', hday'⟩ := date_eq_ok hb'
  obtain ⟨_, unadjusted, _, hunadjusted, hplain⟩ := unadjustedDate_eq_ok hb
  obtain ⟨_, unadjusted', _, hunadjusted', hplain'⟩ := unadjustedDate_eq_ok hb'
  rw [hsame, hdate'] at hdate
  rw [hsame, hunadjusted'] at hunadjusted
  -- both start from the same date, which the committals alone put back
  cases hdate
  cases hunadjusted
  rw [h.botusDaysFirst, hmax] at hday hplain
  rw [h.botusDaysFirst_eq_zero, max_self, Int.add_zero] at hday' hplain'
  rw [h.sentencedAt, ← hday'] at hday
  rw [← hplain'] at hplain
  refine ⟨hday, hplain, ?_⟩
  rw [(date_consistent hb).adjustedDays, (date_consistent hb').adjustedDays, Date.daysUntil,
    Date.daysUntil, hday, hplain]
  omega

end CurfewTerms

/-! ## Calculated with committals and without -/

namespace Sentence

/-- A sentence is classified as a unit, which is calculated and given the dates of some schemes. -/
def classifyAndCalculate (config : Config) (inputs : Inputs) (assumption : Assumption)
    (offender : Offender) (adjustments : AppliedAdjustments) (returned : Option Date)
    (schemes : List Eligibility) (s : Sentence) : Answered (Sentence × UnitCalculation) := do
  let unit ← s.classify config inputs assumption
  return (unit, ← unit.calculateWith config offender adjustments returned schemes)

variable {adjustments : AppliedAdjustments} {returned : Option Date} {schemes : List Eligibility}
variable {before unit alone : Sentence} {c c' : UnitCalculation} {variant : Curfew}
variable {date : Date} {committals terms : List Single}

/-- The unit has its counts, and of each scheme what the scheme gives it. -/
theorem classifyAndCalculate_measured (hnodup : schemes.Nodup)
    (h : before.classifyAndCalculate config inputs assumption offender adjustments returned schemes
      = .ok (unit, c)) :
    ClassifiedAs config inputs assumption before unit
      ∧ ∃ track a m, unit.track? = some track ∧ Measured config adjustments track unit a m
        ∧ c.undated = m ∧ c.InStep
        ∧ ∀ e ∈ schemes, e.date? config offender unit c = .ok (c.breakdowns.get? e.kind) := by
  simp only [classifyAndCalculate, calculateWith, Answered.bind_eq_ok, Answered.pure_eq_ok,
    Prod.mk.injEq] at h
  obtain ⟨_, hclassify, _, ⟨start, hstart, hrun⟩, rfl, rfl⟩ := h
  obtain ⟨track, a, m, htrack, hm, hdated, _⟩ := calculate_dated hstart
  obtain ⟨hstep, hnone⟩ := inStep_of_calculate hstart
  have hschemed := Booking.recordSchemes_schemed hnodup hstep hrun
  refine ⟨classify_classifiedAs hclassify, track, a, m, htrack, hm,
    hschemed.undated.trans hdated.undated, hschemed.inStep hstep, fun e he => ?_⟩
  rw [Eligibility.date?_congr hschemed.undated (hschemed.releaseDate?_eq hstep)]
  exact hschemed.date?_eq he (hnone e)

/-- A unit of committals and then sentences has curfew if its sentences alone do. -/
theorem isSome_curfew_eq (hunit : unit.InTurn date committals terms)
    (halone : alone.InTurn date [] terms) (hcounts : c.AfterCommittals (dayTotal committals) c')
    (happlies : (variant.terms config).applies offender unit c
      = .ok (c.breakdowns.get? variant.kind).isSome)
    (happlies' : (variant.terms config).applies offender alone c'
      = .ok (c'.breakdowns.get? variant.kind).isSome) :
    (c.breakdowns.get? variant.kind).isSome = (c'.breakdowns.get? variant.kind).isSome := by
  -- the length that is looked at is that without the committals
  have hlength : c.expiryDays - c.botusDaysFirst = c'.expiryDays - c'.botusDaysFirst := by
    rw [hcounts.expiryDays, hcounts.botusDaysFirst, hcounts.botusDaysFirst_eq_zero]
    omega
  have hsame : (variant.terms config).applies offender unit c
      = (variant.terms config).applies offender alone c' := by
    unfold CurfewTerms.applies
    rw [hunit.recallType_eq, halone.recallType_eq, hunit.allowsTracks_eq _ halone,
      hcounts.sentencedAt, hlength]
  rw [happlies, happlies'] at hsame
  exact Except.ok.inj hsame

end Sentence

/-- Curfew of a unit with committals of so many days in front, beside that of the unit without
them: both have it or neither does, and it is put back by those days if the days to release come
apart. -/
structure UnitCalculation.CurfewPutBack (config : Config) (variant : Curfew) (days : Nat)
    (c c' : UnitCalculation) : Prop where
  isSome_eq : (c.date? variant.kind).isSome = (c'.date? variant.kind).isSome
  date : (variant.terms config).ComesApart days c c' →
    (c.date? variant.kind).map Date.day
      = (c'.date? variant.kind).map fun d => d.day + (days : Int)
  breakdown : (variant.terms config).ComesApart days c c' →
    Option.Rel (Breakdown.PutBackBy days) (c.breakdowns.get? variant.kind)
      (c'.breakdowns.get? variant.kind)

/-- What is given on the counts of committals and sentences is put back by the committals. -/
theorem UnitCalculation.AfterCommittals.curfewPutBack {variant : Curfew} {days : Nat}
    {c c' : UnitCalculation} (h : c.AfterCommittals days c') (hstep : c.InStep) (hstep' : c'.InStep)
    (hsome : (c.breakdowns.get? variant.kind).isSome = (c'.breakdowns.get? variant.kind).isSome)
    (hdate : ∀ b, c.breakdowns.get? variant.kind = some b →
      (variant.terms config).date variant c c.botusDaysFirst = .ok b)
    (hdate' : ∀ b, c'.breakdowns.get? variant.kind = some b →
      (variant.terms config).date variant c' c'.botusDaysFirst = .ok b) :
    c.CurfewPutBack config variant days c' := by
  have hbreakdown (hapart : (variant.terms config).ComesApart days c c') :
      Option.Rel (Breakdown.PutBackBy days) (c.breakdowns.get? variant.kind)
        (c'.breakdowns.get? variant.kind) := by
    cases hfound : c.breakdowns.get? variant.kind with
    | none =>
      rw [hfound] at hsome
      rw [Option.isNone_iff_eq_none.mp (Option.isSome_eq_false_iff.mp hsome.symm)]
      exact .none
    | some b =>
      rw [hfound] at hsome
      obtain ⟨b', hfound'⟩ := Option.isSome_iff_exists.mp hsome.symm
      rw [hfound']
      exact .some (CurfewTerms.date_putBackBy h hapart (hdate b hfound) (hdate' b' hfound'))
  refine ⟨?_, fun hapart => ?_, hbreakdown⟩
  · rw [hstep.date?_eq, hstep'.date?_eq, Option.isSome_map, Option.isSome_map, hsome]
  · have hrel := hbreakdown hapart
    rw [hstep.date?_eq, hstep'.date?_eq]
    generalize c.breakdowns.get? variant.kind = b, c'.breakdowns.get? variant.kind = b' at hrel
    cases hrel with
    | none => rfl
    | some hput => exact congrArg some hput.releaseDate

/-- **Committals that are served first put curfew back by their days.** A chain of committals and
then standard determinate sentences has curfew if the sentences alone do. Both dates are later by
the days of the committals, if the days to release come apart, or both are short of the midpoint.
They come apart where there is room for the days that are served, as there always is if the
fractions have at most twenty places. -/
theorem Booking.committals_put_back_curfew {directory : String} {text? : ConfigFile → Option String}
    {date : Date} {committals terms : List Single} {chain alone unit unit' : Sentence}
    {adjustments : AppliedAdjustments} {returned : Option Date} {schemes : List Eligibility}
    {variant : Curfew} {c c' : UnitCalculation}
    (hload : Config.load directory text? = .ok config)
    (hbotus : config.releasePoints.fraction .botus = 1)
    (hparts : Single.Consecutive date committals terms)
    (hchain : chain.components = (committals ++ terms).map .single)
    (halone : alone.components = terms.map .single)
    (hnodup : schemes.Nodup) (hvariant : .curfew variant ∈ schemes)
    (h : chain.classifyAndCalculate config inputs assumption offender adjustments returned schemes
      = .ok (unit, c))
    (h' : alone.classifyAndCalculate config inputs assumption offender adjustments returned schemes
      = .ok (unit', c')) :
    c.CurfewPutBack config variant (dayTotal committals) c'
      ∧ (∀ places, config.releasePoints.HasRoom unit.singles places →
        c.releaseDays = dayTotal committals + c'.releaseDays)
      ∧ ((∀ track ∈ unit.componentTracks,
          Decimal.InSteps 20 (config.releasePoints.fraction track)) →
        config.releasePoints.HasRoom unit.singles 20) := by
  obtain ⟨hclassified, track, a, m, htrack, hm, hc, hstep, hgiven⟩ :=
    Sentence.classifyAndCalculate_measured hnodup h
  obtain ⟨hclassified', track', a', m', htrack', hm', hc', hstep', hgiven'⟩ :=
    Sentence.classifyAndCalculate_measured hnodup h'
  obtain ⟨committals', terms', hdays, hunit, hunit'⟩ :=
    hparts.exists_inTurn hchain halone hclassified hclassified'
  have hpoints := (Config.usable_of_load hload).areFractions
  have hcounts : c.AfterCommittals (dayTotal committals') c' :=
    (hunit.afterCommittals hunit' hpoints hm hm').of_undated hc hc'
  obtain ⟨happlies, hdate⟩ := Eligibility.date?_eq_ok (hgiven _ hvariant)
  obtain ⟨happlies', hdate'⟩ := Eligibility.date?_eq_ok (hgiven' _ hvariant)
  have hsame := Sentence.isSome_curfew_eq hunit hunit' hcounts happlies happlies'
  have hsingles := hunit.singles_eq
  rw [← hdays]
  refine ⟨hcounts.curfewPutBack hstep hstep' hsame hdate hdate', fun places hroom => ?_,
    fun hsteps => ?_⟩
  · -- there is room for the sentences alone too
    rw [hsingles] at hroom
    have hrelease : c.releaseDays = m.releaseDays := congrArg (·.releaseDays) hc
    have hrelease' : c'.releaseDays = m'.releaseDays := congrArg (·.releaseDays) hc'
    have hrecall := hunit.ne_recall hclassified htrack
    have hrecall' := hunit'.ne_recall hclassified' htrack'
    have hnone : dayTotal [] = 0 := rfl
    rw [hrelease, hrelease', hunit.releaseDays_of_room hbotus hrecall hroom hm,
      hunit'.releaseDays_of_room hbotus hrecall' hroom.of_append_right hm', hnone,
      Int.natCast_zero, Int.zero_add]
  · rw [hunit.componentTracks_eq] at hsteps
    rw [hsingles]
    refine ReleasePoints.hasRoom_of_twentyPlaces (fun track _ => ?_) hsteps
      (hunit.laidOut hm.aggregate).dayTotal_le
    rw [abs_of_nonneg (hpoints.fraction_nonneg track)]
    exact hpoints.fraction_le_one track

end

/-! ## England and Wales -/

namespace EnglandAndWales

/-- A committal of some days, on the same day as the sentences of the early release scheme. -/
def committal (days : UInt32) : Single :=
  { onEarlyRelease 0 with track := some .botus, term := .botus (Duration.of .days days) }

/-- A committal and then a sentence of so many days. -/
theorem consecutive_committal (days days' : UInt32) :
    Single.Consecutive (on 2024 4 3) [committal days] [onEarlyRelease days'] where
  terms_ne_nil := List.cons_ne_nil _ _
  botus s hs := by
    rw [List.mem_singleton.mp hs]
    exact ⟨_, rfl⟩
  standard s hs := by
    rw [List.mem_singleton.mp hs]
    exact ⟨_, rfl⟩
  counts s hs := by
    rcases List.mem_pair.mp hs with rfl | rfl
    · exact ⟨rfl, rfl, (Term.Lasts.botus (Duration.isDays_of days)).self⟩
    · exact ⟨rfl, rfl, (Term.Lasts.standard (Duration.isDays_of days')).self⟩

theorem dayTotal_committal (days : UInt32) : dayTotal [committal days] = days.toNat := by
  have hlasts : (committal days).term.Lasts days.toNat := .botus (Duration.isDays_of days)
  rw [dayTotal_cons, hlasts.dayCount_eq]
  rfl

/-- Twenty days of a committal put curfew back by twenty days. -/
theorem committals_put_back_curfew_twentyDays :
    ∃ unit unit' c c',
      Config.load "england_and_wales" (fun file => some (text file)) = .ok config
      ∧ (Sentence.chain [.single (committal 20), .single (onEarlyRelease 140)] none
        ).classifyAndCalculate config {} .early someone {} none [.curfew .hdced] = .ok (unit, c)
      ∧ (Sentence.chain [.single (onEarlyRelease 140)] none
        ).classifyAndCalculate config {} .early someone {} none [.curfew .hdced] = .ok (unit', c')
      ∧ c'.date? .hdced = some (on 2024 5 8) ∧ c.date? .hdced = some (on 2024 5 28)
      ∧ c.CurfewPutBack config .hdced 20 c' := by
  have heval : (fun r => r.2.date? .hdced) <$>
      (Sentence.chain [.single (committal 20), .single (onEarlyRelease 140)] none
        ).classifyAndCalculate config {} .early someone {} none [.curfew .hdced]
      = .ok (some (on 2024 5 28)) := by
    decide +kernel
  have heval' : (fun r => r.2.date? .hdced) <$>
      (Sentence.chain [.single (onEarlyRelease 140)] none
        ).classifyAndCalculate config {} .early someone {} none [.curfew .hdced]
      = .ok (some (on 2024 5 8)) := by
    decide +kernel
  obtain ⟨⟨unit, c⟩, hc, hdate⟩ := Answered.map_eq_ok.mp heval
  obtain ⟨⟨unit', c'⟩, hc', hdate'⟩ := Answered.map_eq_ok.mp heval'
  have hload := load_text "england_and_wales"
  have hvariant : Eligibility.curfew .hdced ∈ [Eligibility.curfew .hdced] :=
    List.mem_singleton_self _
  have hputBack := Booking.committals_put_back_curfew hload (by decide +kernel)
    (consecutive_committal 20 140) rfl rfl (List.nodup_singleton _) hvariant hc hc'
  rw [dayTotal_committal] at hputBack
  exact ⟨unit, unit', c, c', hload, hc, hc', hdate', hdate, hputBack.1⟩

/-- With a fraction that takes up all places, 380 days and a fraction of a step are rounded up to a
day more alone than after 420 days. -/
theorem curfew_precise_fourHundredDays :
    ∃ unit unit' c c' b b',
      (Sentence.chain [.single (committal 420), .single (onEarlyRelease 400)] none
        ).classifyAndCalculate preciseConfig {} .early someone {} none [.curfew .hdced]
          = .ok (unit, c)
      ∧ (Sentence.chain [.single (onEarlyRelease 400)] none
        ).classifyAndCalculate preciseConfig {} .early someone {} none [.curfew .hdced]
          = .ok (unit', c')
      ∧ c.breakdowns.get? .hdced = some b ∧ c'.breakdowns.get? .hdced = some b'
      ∧ b.releaseDate = on 2025 12 14 ∧ b'.releaseDate = on 2024 10 21 := by
  have heval : (fun r => (r.2.breakdowns.get? .hdced).map Breakdown.releaseDate) <$>
      (Sentence.chain [.single (committal 420), .single (onEarlyRelease 400)] none
        ).classifyAndCalculate preciseConfig {} .early someone {} none [.curfew .hdced]
      = .ok (some (on 2025 12 14)) := by
    decide +kernel
  have heval' : (fun r => (r.2.breakdowns.get? .hdced).map Breakdown.releaseDate) <$>
      (Sentence.chain [.single (onEarlyRelease 400)] none
        ).classifyAndCalculate preciseConfig {} .early someone {} none [.curfew .hdced]
      = .ok (some (on 2024 10 21)) := by
    decide +kernel
  obtain ⟨⟨unit, c⟩, hc, hdate⟩ := Answered.map_eq_ok.mp heval
  obtain ⟨⟨unit', c'⟩, hc', hdate'⟩ := Answered.map_eq_ok.mp heval'
  obtain ⟨b, hb, hday⟩ := Option.map_eq_some_iff.mp hdate
  obtain ⟨b', hb', hday'⟩ := Option.map_eq_some_iff.mp hdate'
  exact ⟨unit, unit', c, c', b, b', hc, hc', hb, hb', hday, hday'⟩

/-- It is not so that committals put curfew back by their days under every configuration. -/
theorem not_committals_put_back_curfew :
    ¬ ∀ (directory : String) (text? : ConfigFile → Option String) (config : Config)
      (inputs : Inputs) (assumption : Assumption) (offender : Offender)
      (adjustments : AppliedAdjustments) (returned : Option Date) (date : Date)
      (committals terms : List Single) (chain alone unit unit' : Sentence)
      (schemes : List Eligibility) (variant : Curfew) (c c' : UnitCalculation),
      Config.load directory text? = .ok config → config.releasePoints.fraction .botus = 1 →
      Single.Consecutive date committals terms →
      chain.components = (committals ++ terms).map .single →
      alone.components = terms.map .single → schemes.Nodup → .curfew variant ∈ schemes →
      chain.classifyAndCalculate config inputs assumption offender adjustments returned schemes
        = .ok (unit, c) →
      alone.classifyAndCalculate config inputs assumption offender adjustments returned schemes
        = .ok (unit', c') →
      Option.Rel (Breakdown.PutBackBy (dayTotal committals)) (c.breakdowns.get? variant.kind)
        (c'.breakdowns.get? variant.kind) := by
  intro hall
  obtain ⟨unit, unit', c, c', b, b', hc, hc', hb, hb', hday, hday'⟩ :=
    curfew_precise_fourHundredDays
  have hvariant : Eligibility.curfew .hdced ∈ [Eligibility.curfew .hdced] :=
    List.mem_singleton_self _
  have hrel := hall "england_and_wales" _ preciseConfig _ _ _ _ _ _ _ _ _ _ unit unit' _ .hdced
    c c' (load_preciseText _) (by decide +kernel) (consecutive_committal 420 400) rfl rfl
    (List.nodup_singleton _) hvariant hc hc'
  rw [dayTotal_committal, show Curfew.hdced.kind = .hdced from rfl, hb, hb',
    Option.rel_some_some] at hrel
  have hput := hrel.releaseDate
  rw [hday, hday'] at hput
  revert hput
  decide +kernel

end EnglandAndWales

end Custody
