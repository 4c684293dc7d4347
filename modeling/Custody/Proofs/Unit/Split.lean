import Custody.Proofs.Unit.CurfewDate
import Custody.Proofs.Unit.Schemes
import Custody.Proofs.Unit.Served

/-!
# A sentence in parts

Terms that count days, on one track, passed on one date for offences of one date, may be served one
after the other in place of a single term of their days together. All that is calculated of a unit
depends on its parts through their totals alone: the length, the custodial term, the days to
release, and what the schemes ask. The days to release are a sum of fractions, which is the same for
every way of dividing the days as long as there is room for it.

* **`Sentence.ServedOn`**: components that count days on one track.
* **`Sentence.ServedOn.measure_rel`**: two units of as many days have the same counts.
* **`Sentence.split_calculation`**: a chain of parts against one sentence of all days.
-/

namespace Custody

open Custody.Calendar

section

variable {config : Config} {offender : Offender} {adjustments : AppliedAdjustments}
variable {returned : Option Date} {track : Track} {date offenceDate : Date}
variable {ss ss' : List Single} {unit unit' : Sentence} {a a' : Aggregate}

/-! ## Components on one track -/

/-- A sentence that counts days on a track, for an offence of a date. -/
structure Single.ServedOn (s : Single) (track : Track) (date offenceDate : Date) : Prop
    extends s.CountsDays date where
  track_eq : s.track = some track
  committedAt : s.offence.committedAt = offenceDate

namespace Sentence

/-- A sentence on a track, of such components on the same track. -/
structure ServedOn (unit : Sentence) (track : Track) (date offenceDate : Date) (ss : List Single) :
    Prop extends unit.CountsDays date ss where
  track_eq : unit.track? = some track
  served : ∀ s ∈ ss, s.ServedOn track date offenceDate

theorem servedOn_chain {parts : List Single} (hne : parts ≠ [])
    (h : ∀ s ∈ parts, s.ServedOn track date offenceDate) :
    (chain (parts.map single) (some track)).ServedOn track date offenceDate parts :=
  ⟨⟨rfl, hne, fun s hs => (h s hs).toCountsDays⟩, rfl, h⟩

theorem servedOn_single {s : Single} (h : s.ServedOn track date offenceDate) :
    (single s).ServedOn track date offenceDate [s] :=
  ⟨⟨rfl, List.cons_ne_nil s [], List.forall_mem_singleton.mpr h.toCountsDays⟩, h.track_eq,
    List.forall_mem_singleton.mpr h⟩

namespace ServedOn

theorem tracks (h : unit.ServedOn track date offenceDate ss) : ∀ s ∈ ss, s.track = some track :=
  fun s hs => (h.served s hs).track_eq

/-- What is asked of the tracks of all components is asked of the one track. -/
theorem exists_track_iff (h : unit.ServedOn track date offenceDate ss) (P : Track → Prop) :
    (∃ t ∈ unit.componentTracks, P t) ↔ P track := by
  rw [h.componentTracks_eq]
  constructor
  · rintro ⟨t, ht, hP⟩
    obtain ⟨s, hs, hst⟩ := List.mem_filterMap.mp ht
    rw [h.tracks s hs] at hst
    cases hst
    exact hP
  · intro hP
    obtain ⟨s, rest, rfl⟩ := List.exists_cons_of_ne_nil h.ne_nil
    exact ⟨track, List.mem_filterMap.mpr ⟨s, List.mem_cons_self, h.tracks s List.mem_cons_self⟩, hP⟩

/-- What is asked of the dates of all offences is asked of the one date. -/
theorem any_offences (h : unit.ServedOn track date offenceDate ss) (p : Date → Bool) :
    unit.offences.any (fun o => p o.committedAt) = p offenceDate := by
  rw [offences, h.singles_eq, List.any_map]
  -- there is a component, so its offence is of the one date
  obtain ⟨s, rest, rfl⟩ := List.exists_cons_of_ne_nil h.ne_nil
  rw [Bool.eq_iff_iff, List.any_eq_true]
  constructor
  · rintro ⟨s', hs', hp⟩
    rw [← (h.served s' hs').committedAt]
    exact hp
  · intro hp
    refine ⟨s, List.mem_cons_self, ?_⟩
    show p s.offence.committedAt = true
    rw [(h.served s List.mem_cons_self).committedAt, hp]

theorem exists_identifier (h : unit.ServedOn track date offenceDate ss) :
    ∃ identifier, unit.identifier? = some identifier := by
  obtain ⟨s, rest, rfl⟩ := List.exists_cons_of_ne_nil h.ne_nil
  refine ⟨s.identifier, ?_⟩
  rw [identifier?, first?, h.components]
  rfl

end ServedOn

end Sentence

/-! ## The layout -/

/-- Components of as many days have a layout both, or neither. -/
theorem Sentence.CountsDays.aggregate_rel (h : unit.CountsDays date ss)
    (h' : unit'.CountsDays date ss') (hdays : dayTotal ss = dayTotal ss') :
    Answered.Rel (fun a a' => unit.aggregate = .ok a ∧ unit'.aggregate = .ok a') unit.aggregate
      unit'.aggregate := by
  refine .of_exists (fun a ha => ?_) (fun a' ha' => ?_) fun a a' ha ha' => ⟨ha, ha'⟩
  · exact h'.exists_aggregate (hdays ▸ (h.laidOut ha).day_finish)
  · exact h.exists_aggregate (hdays ▸ (h'.laidOut ha').day_finish)

/-- No committals are served before components on a track of standard determinate sentences. -/
theorem Aggregate.LaidOut.botusDaysFirst_eq (h : a.LaidOut date ss) (hsds : track.isSds = true)
    (hne : ss ≠ []) (htracks : ∀ s ∈ ss, s.track = some track) : a.botusDaysFirst = 0 := by
  have hparts : ∀ p ∈ a.parts, isSdsPart p = true := by
    intro p hp
    obtain ⟨s, hs, hpart⟩ := Answered.exists_of_mem_right h.spans.flip hp
    rw [isSdsPart, hpart.track, htracks s hs]
    exact hsds
  have hnil : a.parts ≠ [] := by
    intro hnil
    have hspans := h.spans
    rw [hnil, List.forall₂_nil_left_iff] at hspans
    exact hne hspans
  -- so nothing stands in front of the first such part
  have hfront : ∀ p ∈ ([] : List Part), p.track = some .botus :=
    fun _ hp => absurd hp List.not_mem_nil
  exact botusDaysFirst_append (List.nil_append a.parts).symm hfront hparts hnil

/-! ## Counts -/

/-- The calculation of a unit under another identifier. -/
def UnitCalculation.identifiedBy (c : UnitCalculation) (identifier : Identifier) :
    UnitCalculation :=
  { c with identifier }

/-- Calculations that are the same, identifiers aside. -/
def UnitCalculation.SameButIdentifier (c c' : UnitCalculation) : Prop :=
  c' = c.identifiedBy c'.identifier

namespace Sentence

/-- Equal numbers of days are rounded up to the same whole days. -/
theorem ceilDays_rel {days days' : Decimal} (h : days.value = days'.value) :
    Answered.Rel Eq (ceilDays days) (ceilDays days') := by
  have hceil : days.ceil = days'.ceil := by
    rw [days.ceil_eq, days'.ceil_eq, h]
  simp only [ceilDays, hceil]
  by_cases hfits : fits64 days'.ceil = true
  · rw [if_pos hfits, if_pos hfits]
    exact .ok rfl
  · rw [if_neg hfits, if_neg hfits]
    exact .error _ _

/-- Whether there is a sum of what is served depends on the one track alone. -/
theorem exists_servedDays_iff_of_track {points : ReleasePoints} {parts : List Part}
    (hspans : List.Forall₂ Part.Spans parts ss) (hne : ss ≠ [])
    (htracks : ∀ s ∈ ss, s.track = some track) :
    (∃ total, servedDays points parts = .ok total) ↔ ∃ m, points.multiplierFor track = .ok m := by
  have hparts : ∀ p ∈ parts, p.track = some track := by
    intro p hp
    obtain ⟨s, hs, hpart⟩ := Answered.exists_of_mem_right hspans.flip hp
    rw [hpart.track, htracks s hs]
  -- there is a sum if every part has a multiplier, and all parts are on the one track
  rw [exists_servedDays_iff]
  constructor
  · intro hall
    cases hspans with
    | nil => exact absurd rfl hne
    | @cons p _ parts _ _ _ =>
      obtain ⟨track', m, htrack', hm⟩ := hall p List.mem_cons_self
      rw [hparts p List.mem_cons_self] at htrack'
      cases htrack'
      exact ⟨m, hm⟩
  · rintro ⟨m, hm⟩ p hp
    exact ⟨track, m, hparts p hp, hm⟩

/-- Two units that have the same days to release on a track, or none. -/
def SameRelease (points : ReleasePoints) (track : Track) (unit unit' : Sentence) : Prop :=
  ∀ a a', unit.aggregate = .ok a → unit'.aggregate = .ok a' →
    Answered.Rel Eq (daysToRelease points track a) (daysToRelease points track a')

/-- **The days to release are the same for every way of dividing the days**, if there is room. -/
theorem ServedOn.sameRelease {points : ReleasePoints} {places places' : Nat}
    (hrecall : track ≠ .recall) (h : unit.ServedOn track date offenceDate ss)
    (h' : unit'.ServedOn track date offenceDate ss') (hdays : dayTotal ss = dayTotal ss')
    (hroom : points.HasRoom ss places) (hroom' : points.HasRoom ss' places') :
    SameRelease points track unit unit' := by
  intro a a' ha ha'
  have hspans := (h.laidOut ha).spans
  have hspans' := (h'.laidOut ha').spans
  -- the sums may be written with other places, but are of the same value
  have hserved : Answered.Rel (fun total total' => total.value = total'.value)
      (servedDays points a.parts) (servedDays points a'.parts) := by
    have hexists : (∃ total, servedDays points a.parts = .ok total)
        ↔ ∃ total, servedDays points a'.parts = .ok total :=
      (exists_servedDays_iff_of_track hspans h.ne_nil h.tracks).trans
        (exists_servedDays_iff_of_track hspans' h'.ne_nil h'.tracks).symm
    refine .of_exists (fun total htotal => hexists.mp ⟨total, htotal⟩)
      (fun total htotal => hexists.mpr ⟨total, htotal⟩) fun total total' htotal htotal' => ?_
    rw [servedDays_value_of_room hspans hroom htotal,
      servedDays_value_of_room hspans' hroom' htotal',
      ReleasePoints.sum_shareOf_of_track h.tracks, ReleasePoints.sum_shareOf_of_track h'.tracks,
      hdays]
  unfold daysToRelease
  rw [if_neg hrecall, if_neg hrecall]
  exact hserved.bind fun _ _ => ceilDays_rel

/-- Parole depends on the custodial term, which is as long. -/
theorem daysToParole?_eq {points : ReleasePoints} (ha : a.LaidOut date ss)
    (ha' : a'.LaidOut date ss') (hdays : dayTotal ss = dayTotal ss') :
    daysToParole? points track a = daysToParole? points track a' := by
  have hcustodial (p : Part) (s : Single) (hpart : p.Spans s) :
      p.custodialDays = s.term.dayCount := hpart.custodialDays
  have hcustody : a.custodialDays = a'.custodialDays := by
    rw [Aggregate.custodialDays, Aggregate.custodialDays,
      Part.totalOf_of_spans hcustodial ha.spans, Part.totalOf_of_spans hcustodial ha'.spans, hdays]
  unfold daysToParole?
  rw [hcustody]

/-- Release on licence depends on the length and the one date of offences. -/
theorem releasedOnLicence_eq (h : unit.ServedOn track date offenceDate ss)
    (h' : unit'.ServedOn track date offenceDate ss') (ha : a.LaidOut date ss)
    (ha' : a'.LaidOut date ss') (hdays : dayTotal ss = dayTotal ss') :
    releasedOnLicence config track unit a = releasedOnLicence config track unit' a' := by
  have hoffences := h.any_offences fun d => decide (config.commencements.ora ≤ d)
  have hoffences' := h'.any_offences fun d => decide (config.commencements.ora ≤ d)
  unfold releasedOnLicence
  rw [hoffences, hoffences', ha.sentencedAt, ha'.sentencedAt, ha.totalDays, ha'.totalDays, hdays]

/-- **Two units of as many days have the same counts**, if they have the same days to release. -/
theorem ServedOn.measure_rel (hsds : track.isSds = true)
    (h : unit.ServedOn track date offenceDate ss) (h' : unit'.ServedOn track date offenceDate ss')
    (hdays : dayTotal ss = dayTotal ss')
    (hrelease : SameRelease config.releasePoints track unit unit') :
    Answered.Rel UnitCalculation.SameButIdentifier (unit.measure config adjustments track)
      (unit'.measure config adjustments track) := by
  unfold measure
  refine (h.aggregate_rel h'.toCountsDays hdays).bind fun a a' haggregate => ?_
  refine (hrelease a a' haggregate.1 haggregate.2).bind fun n _ hn => ?_
  subst hn
  -- the other counts come from the totals of the layouts
  have ha := h.laidOut haggregate.1
  have ha' := h'.laidOut haggregate.2
  have hbotus := ha.botusDaysFirst_eq hsds h.ne_nil h.tracks
  have hbotus' := ha'.botusDaysFirst_eq hsds h'.ne_nil h'.tracks
  obtain ⟨identifier, hidentifier⟩ := h.exists_identifier
  obtain ⟨identifier', hidentifier'⟩ := h'.exists_identifier
  rw [daysToParole?_eq ha ha' hdays, releasedOnLicence_eq h h' ha ha' hdays, hidentifier,
    hidentifier', ha.sentencedAt, ha'.sentencedAt, ha.totalDays, ha'.totalDays, hbotus, hbotus',
    hdays]
  exact .bind_same fun _ => .bind_same fun _ => .ok rfl

/-- **Two units of as many days have the same dates to start with**, if they have the same days to
release. -/
theorem ServedOn.calculate_rel (hsds : track.isSds = true)
    (h : unit.ServedOn track date offenceDate ss) (h' : unit'.ServedOn track date offenceDate ss')
    (hdays : dayTotal ss = dayTotal ss')
    (hrelease : SameRelease config.releasePoints track unit unit') :
    Answered.Rel UnitCalculation.SameButIdentifier (unit.calculate config adjustments returned)
      (unit'.calculate config adjustments returned) := by
  have hrecall : track ≠ .recall := by
    rintro rfl
    cases hsds
  unfold calculate
  rw [h.track_eq, h'.track_eq]
  change Answered.Rel _ (unit.measure config adjustments track >>= _)
    (unit'.measure config adjustments track >>= _)
  refine (h.measure_rel hsds h' hdays hrelease).bind fun m m' hm => ?_
  obtain ⟨identifier, rfl⟩ : ∃ identifier, m' = m.identifiedBy identifier := ⟨_, hm⟩
  -- from the counts on both units take the same steps
  refine .bind_same fun expiry => ?_
  rw [if_neg hrecall, if_neg hrecall]
  refine .bind_same fun release => ?_
  -- recording dates does not change whether parole is considered
  have hrecord (c : UnitCalculation) (kind : DateKind) (b : Breakdown) :
      (c.record kind b).paroleDays = c.paroleDays := rfl
  have hidentified : (m.identifiedBy identifier).paroleDays = m.paroleDays := rfl
  simp only [hrecord, hidentified]
  cases m.paroleDays with
  | none => exact .ok rfl
  | some days => exact .bind_same fun _ => .ok rfl

end Sentence

/-! ## Schemes -/

/-- A scheme gives two such units the same, if their counts are the same. -/
theorem Eligibility.date?_identifiedBy (h : unit.ServedOn track date offenceDate ss)
    (h' : unit'.ServedOn track date offenceDate ss') (c : UnitCalculation) (identifier : Identifier)
    (e : Eligibility) : e.date? config offender unit c
      = e.date? config offender unit' (c.identifiedBy identifier) := by
  have happlies : e.applies config offender unit c
      = e.applies config offender unit' (c.identifiedBy identifier) := by
    cases e with
    | curfew variant =>
      -- tracks are looked at one by one, and there is but one
      have hallowed : (variant.terms config).allowsTracks unit.componentTracks
          = (variant.terms config).allowsTracks unit'.componentTracks := by
        rw [Bool.eq_iff_iff, CurfewTerms.allowsTracks_iff, CurfewTerms.allowsTracks_iff]
        simp only [h.exists_track_iff, h'.exists_track_iff]
      show (variant.terms config).applies offender unit c
        = (variant.terms config).applies offender unit' (c.identifiedBy identifier)
      unfold CurfewTerms.applies
      rw [h.recallType_eq, h'.recallType_eq, hallowed]
      rfl
    | removal =>
      unfold applies RemovalTerms.applies
      rw [h.track_eq, h'.track_eq]
      rfl
    | supervision =>
      have hoffences := h.any_offences fun d => decide (d < config.commencements.ora)
      have hoffences' := h'.any_offences fun d => decide (d < config.commencements.ora)
      unfold applies SupervisionTerms.applies
      rw [h.track_eq, h'.track_eq, hoffences, hoffences']
      rfl
  -- where the date falls depends on the counts alone
  have hdate : e.date config c c.botusDaysFirst = e.date config (c.identifiedBy identifier)
      (c.identifiedBy identifier).botusDaysFirst := by
    cases e <;> rfl
  unfold date?
  rw [happlies, hdate]

/-- Schemes that are recorded one after the other give both units the same. -/
theorem Booking.recordSchemes_rel (h : unit.ServedOn track date offenceDate ss)
    (h' : unit'.ServedOn track date offenceDate ss') (schemes : List Eligibility)
    {c c' : UnitCalculation} (hc : c.SameButIdentifier c') :
    Answered.Rel UnitCalculation.SameButIdentifier (recordSchemes config offender unit c schemes)
      (recordSchemes config offender unit' c' schemes) := by
  refine .foldlM (fun e c c' hc => ?_) schemes hc
  obtain ⟨identifier, rfl⟩ : ∃ identifier, c' = c.identifiedBy identifier := ⟨_, hc⟩
  -- the two still differ in their identifiers only
  have happly : Answered.Rel (fun r r' => r.1.SameButIdentifier r'.1)
      (e.apply config offender unit c)
      (e.apply config offender unit' (c.identifiedBy identifier)) := by
    unfold Eligibility.apply
    rw [← Eligibility.date?_identifiedBy h h']
    refine .bind_same fun found => ?_
    cases found with
    | none => exact .ok rfl
    | some b => exact .ok rfl
  exact happly.bind fun _ _ hr => .ok hr

/-! ## The whole calculation -/

namespace Sentence

/-- **A term may be served in parts.** Its calculation is that of the parts one after the other,
identifiers aside, or both fail, if the days to release are the same. They are if there is room for
the days that are served of the parts, as there always is if a fraction of the whole has at most
twenty places. -/
theorem split_calculation {parts : List Single} {whole : Single} (hsds : track.isSds = true)
    (hne : parts ≠ []) (hparts : ∀ s ∈ parts, s.ServedOn track date offenceDate)
    (hwhole : whole.ServedOn track date offenceDate)
    (hdays : whole.term.dayCount = dayTotal parts) :
    (SameRelease config.releasePoints track (chain (parts.map single) (some track)) (single whole) →
      ∀ schemes, Answered.Rel UnitCalculation.SameButIdentifier
        ((chain (parts.map single) (some track)).calculateWith config offender adjustments returned
          schemes)
        ((single whole).calculateWith config offender adjustments returned schemes))
      ∧ (∀ places, config.releasePoints.HasRoom parts places →
        SameRelease config.releasePoints track (chain (parts.map single) (some track))
          (single whole))
      ∧ (|config.releasePoints.fraction track| ≤ 1 →
        Decimal.InSteps 20 (config.releasePoints.fraction track) →
        SameRelease config.releasePoints track (chain (parts.map single) (some track))
          (single whole)) := by
  have hrecall : track ≠ .recall := by
    rintro rfl
    cases hsds
  have hchain := servedOn_chain hne hparts
  have hsingle := servedOn_single hwhole
  have htotal : dayTotal parts = dayTotal [whole] := by
    rw [dayTotal_cons, ← hdays]
    rfl
  -- room for the parts is room for the whole, whose share is the sum of theirs
  have hroomed (places : Nat) (hroom : config.releasePoints.HasRoom parts places) :
      SameRelease config.releasePoints track (chain (parts.map single) (some track))
        (single whole) :=
    hchain.sameRelease hrecall hsingle htotal hroom
      (hroom.merged hchain.tracks hwhole.track_eq hdays)
  refine ⟨fun hrelease schemes => ?_, hroomed, fun hfraction hsteps a a' ha ha' => ?_⟩
  · exact (hchain.calculate_rel hsds hsingle htotal hrelease).bind
      fun _ _ hstart => Booking.recordSchemes_rel hchain hsingle schemes hstart
  · -- what is laid out is no longer than the range of dates
    have hrange := (hchain.laidOut ha).dayTotal_le
    have htracks (t : Track) (ht : t ∈ parts.filterMap Single.track) : t = track := by
      obtain ⟨s, hs, hst⟩ := List.mem_filterMap.mp ht
      rw [hchain.tracks s hs] at hst
      exact (Option.some.inj hst).symm
    have hroom : config.releasePoints.HasRoom parts 20 :=
      ReleasePoints.hasRoom_of_twentyPlaces (fun t ht => htracks t ht ▸ hfraction)
        (fun t ht => htracks t ht ▸ hsteps) hrange
    exact hroomed 20 hroom a a' ha ha'

end Sentence

end

/-! ## England and Wales -/

namespace EnglandAndWales

theorem servedOn_onEarlyRelease (days : UInt32) :
    (onEarlyRelease days).ServedOn .sdsEarly (on 2024 4 3) (on 2023 5 9) where
  track_eq := rfl
  sentencedAt := rfl
  committedAt := rfl
  notRecalled := rfl
  lasts := (Term.Lasts.standard (Duration.isDays_of days)).self

/-- A hundred days in eight parts. -/
def hundredDays : List Single := [5, 25, 5, 5, 5, 5, 34, 16].map onEarlyRelease

theorem servedOn_hundredDays :
    ∀ s ∈ hundredDays, s.ServedOn .sdsEarly (on 2024 4 3) (on 2023 5 9) := by
  intro s hs
  obtain ⟨days, _, rfl⟩ := List.mem_map.mp hs
  exact servedOn_onEarlyRelease days

theorem dayTotal_hundredDays : (onEarlyRelease 100).term.dayCount = dayTotal hundredDays := by
  decide +kernel

/-- Two fifths of a hundred days are served, in eight parts or in one. -/
theorem split_calculation_hundredDays :
    ∃ c c', (Sentence.chain (hundredDays.map .single) (some .sdsEarly)).calculateWith config someone
        {} none Enumeration.all = .ok c
      ∧ (Sentence.single (onEarlyRelease 100)).calculateWith config someone {} none Enumeration.all
        = .ok c'
      ∧ c.date? .crd = some (on 2024 5 12) ∧ c.SameButIdentifier c' := by
  have heval : (·.date? .crd) <$> (Sentence.chain (hundredDays.map .single)
      (some .sdsEarly)).calculateWith config someone {} none Enumeration.all
      = .ok (some (on 2024 5 12)) := by
    decide +kernel
  obtain ⟨c, hc, hdate⟩ := Answered.map_eq_ok.mp heval
  have hfraction : config.releasePoints.fraction .sdsEarly = 2 / 5 := fraction_sdsEarly
  have hsteps : Decimal.InSteps 20 (2 / 5) := ⟨40000000000000000000, by norm_num [Decimal.scale]⟩
  obtain ⟨hsplit, _, hrelease⟩ := @Sentence.split_calculation config someone {} none _ _ _ _ _ rfl
    (List.cons_ne_nil _ _) servedOn_hundredDays (servedOn_onEarlyRelease 100) dayTotal_hundredDays
  rw [hfraction] at hrelease
  obtain ⟨c', hc', hsame⟩ := (hsplit (hrelease (by norm_num) hsteps) _).exists_of_ok hc
  exact ⟨c, c', hc, hc', hdate, hsame⟩

/-- It is not so that a term may be served in parts under every configuration. -/
theorem not_split_calculation :
    ¬ ∀ (config : Config) (offender : Offender) (adjustments : AppliedAdjustments)
      (returned : Option Date) (track : Track) (date offenceDate : Date) (parts : List Single)
      (whole : Single), track.isSds = true → parts ≠ [] →
      (∀ s ∈ parts, s.ServedOn track date offenceDate) → whole.ServedOn track date offenceDate →
      whole.term.dayCount = dayTotal parts →
      Answered.Rel UnitCalculation.SameButIdentifier
        ((Sentence.chain (parts.map .single) (some track)).calculateWith config offender adjustments
          returned Enumeration.all)
        ((Sentence.single whole).calculateWith config offender adjustments returned
          Enumeration.all) := by
  intro hall
  have hrel := hall preciseConfig someone {} none _ _ _ hundredDays (onEarlyRelease 100) rfl
    (List.cons_ne_nil _ _) servedOn_hundredDays (servedOn_onEarlyRelease 100) dayTotal_hundredDays
  have heval : (·.releaseDays) <$> (Sentence.chain (hundredDays.map .single)
      (some .sdsEarly)).calculateWith preciseConfig someone {} none Enumeration.all = .ok 95 := by
    decide +kernel
  have heval' : (·.releaseDays) <$> (Sentence.single (onEarlyRelease 100)).calculateWith
      preciseConfig someone {} none Enumeration.all = .ok 96 := by
    decide +kernel
  obtain ⟨c, hc, hdays⟩ := Answered.map_eq_ok.mp heval
  obtain ⟨c', hc', hdays'⟩ := Answered.map_eq_ok.mp heval'
  -- were the calculations the same, so would be the days to release
  obtain ⟨c'', hc'', hsame⟩ := hrel.exists_of_ok hc
  rw [hc'] at hc''
  cases hc''
  have hrelease : c'.releaseDays = c.releaseDays := congrArg (·.releaseDays) hsame
  rw [hdays, hdays'] at hrelease
  cases hrelease

end EnglandAndWales

end Custody
