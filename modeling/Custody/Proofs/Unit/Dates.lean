import Custody.Booking.Calculation
import Custody.Proofs.Calendar.Advance
import Custody.Proofs.Release.InStep

/-!
# The dates of a unit

A unit gets one expiry date and, unless it is recalled, one release date, each at the end of its
adjusted count of days. The schemes that follow add dates of their own kinds and leave the others
where they are.

* **`Sentence.calculate_eq_ok`**: the dates that a unit starts with.
* **`Dated`**: one expiry date and at most one release date, and where they are.
* **`Booking.recordSchemes_preserves`**: what adding one date keeps, the dates of all schemes keep.
* **`Booking.calculateUnit_dated`**: only a unit that is released has a date before release.
-/

namespace Custody

open Custody.Calendar

/-! ## Counts -/

namespace Breakdown

variable {start : Date} {unadjusted adjusted : Int} {b : Breakdown}

theorem lastDays_of_inclusive (h : inclusive start unadjusted adjusted = .ok b) :
    start.lastDay unadjusted = .ok b.unadjustedDate
      ∧ start.lastDay adjusted = .ok b.releaseDate := by
  simp only [inclusive, Answered.bind_eq_ok, Answered.pure_eq_ok] at h
  obtain ⟨date, hdate, release, hrelease, rfl⟩ := h
  split <;> exact ⟨hdate, hrelease⟩

/-- A date that is at the end of a count of 64 bits. -/
theorem inclusive_eq_ok (hadjusted : fits64 adjusted = true)
    (h : inclusive start unadjusted adjusted = .ok b) :
    b.releaseDate.day = start.day + max (adjusted - 1) 0 :=
  Date.day_of_lastDay hadjusted (lastDays_of_inclusive h).2

end Breakdown

namespace UnitCalculation

/-- The counts of a unit alone, without its dates. -/
def undated (c : UnitCalculation) : UnitCalculation :=
  { c with
    dates := Table.empty
    breakdowns := Table.empty }

/-- The kind of date that a unit expires on. -/
def expiryKind (c : UnitCalculation) : DateKind := if c.hasLicence then .sled else .sed

/-- The kind of date that a unit is released on. -/
def releaseKind (c : UnitCalculation) : DateKind := if c.hasLicence then .crd else .ard

end UnitCalculation

namespace Sentence

variable {config : Config} {adjustments : AppliedAdjustments} {returned : Option Date}

/-- The counts of days of a unit come from its layout. -/
structure Measured (config : Config) (adjustments : AppliedAdjustments) (track : Track)
    (s : Sentence) (a : Aggregate) (c : UnitCalculation) : Prop where
  aggregate : s.aggregate = .ok a
  sentencedAt : c.sentencedAt = a.sentencedAt
  expiryDays : c.expiryDays = a.totalDays
  releaseDays : daysToRelease config.releasePoints track a = .ok c.releaseDays
  paroleDays : daysToParole? config.releasePoints track a = .ok c.paroleDays
  botusDaysFirst : c.botusDaysFirst = a.botusDaysFirst
  hasLicence : releasedOnLicence config track s a = .ok c.hasLicence
  adjustedExpiryDays : c.adjustedExpiryDays = wrap64 (c.expiryDays + adjustments.custodyDays)
  adjustedReleaseDays : c.adjustedReleaseDays = wrap64 (c.releaseDays + adjustments.releaseDays)
  undated : c.undated = c
  date?_eq_none : ∀ kind, c.date? kind = none
  inStep : c.InStep
  adjustments_eq : c.adjustments = adjustments
  identifier : s.identifier? = some c.identifier

theorem measure_measured {track : Track} {s : Sentence} {c : UnitCalculation}
    (h : s.measure config adjustments track = .ok c) :
    ∃ a, Measured config adjustments track s a c := by
  simp only [measure, Answered.bind_eq_ok, Answered.pure_eq_ok] at h
  obtain ⟨a, ha, releaseDays, hrelease, _, hparole, hasLicence, hlicence, _, hidentifier, rfl⟩ := h
  exact ⟨a, ha, rfl, rfl, hrelease, hparole, rfl, hlicence, rfl, rfl, rfl, fun _ => rfl,
    InStep.empty, rfl, Answered.orFail_eq_ok.mp hidentifier⟩

section

variable {track : Track} {s : Sentence} {a : Aggregate} {c : UnitCalculation}
  (hm : Measured config adjustments track s a c)

include hm

theorem Measured.fits_adjustedExpiryDays : fits64 c.adjustedExpiryDays = true :=
  hm.adjustedExpiryDays ▸ fits64_wrap64 _

theorem Measured.fits_adjustedReleaseDays : fits64 c.adjustedReleaseDays = true :=
  hm.adjustedReleaseDays ▸ fits64_wrap64 _

end

/-- **The dates that a unit starts with.** -/
theorem calculate_eq_ok {s : Sentence} {c : UnitCalculation}
    (h : s.calculate config adjustments returned = .ok c) :
    ∃ track m expiry, s.track? = some track ∧ s.measure config adjustments track = .ok m
      ∧ Breakdown.inclusive m.sentencedAt m.expiryDays m.adjustedExpiryDays = .ok expiry
      ∧ ((track = .recall ∧ ∃ after,
          releaseAfterRecall s.recallType expiry.releaseDate returned = .ok after
          ∧ c = (m.record m.expiryKind expiry).record .prrd after)
        ∨ (track ≠ .recall ∧ ∃ release,
          Breakdown.inclusive m.sentencedAt m.releaseDays m.adjustedReleaseDays = .ok release
          ∧ (m.paroleDays = none ∧ c = (m.record m.expiryKind expiry).record m.releaseKind release
            ∨ ∃ days parole, m.paroleDays = some days
              ∧ Breakdown.inclusive m.sentencedAt days (wrap64 (days + adjustments.releaseDays))
                = .ok parole
              ∧ c = ((m.record m.expiryKind expiry).record m.releaseKind release).record
                .ped parole))) := by
  simp only [calculate, Answered.bind_eq_ok, Answered.orFail_eq_ok] at h
  obtain ⟨track, htrack, m, hm, expiry, hexpiry, h⟩ := h
  refine ⟨track, m, expiry, htrack, hm, hexpiry, ?_⟩
  split at h
  · next hrecall =>
    obtain ⟨after, hafter, h⟩ := Answered.bind_eq_ok.mp h
    cases h
    exact .inl ⟨hrecall, after, hafter, rfl⟩
  · next hrecall =>
    obtain ⟨release, hrelease, h⟩ := Answered.bind_eq_ok.mp h
    refine .inr ⟨hrecall, release, hrelease, ?_⟩
    split at h
    · next days hdays =>
      obtain ⟨parole, hparole, h⟩ := Answered.bind_eq_ok.mp h
      cases h
      exact .inr ⟨days, parole, hdays, hparole, rfl⟩
    · next hdays =>
      cases h
      exact .inl ⟨hdays, rfl⟩

/-- The dates that a unit starts with do not change its counts. -/
theorem calculate_undated {s : Sentence} {c : UnitCalculation}
    (h : s.calculate config adjustments returned = .ok c) :
    ∃ track m, s.track? = some track ∧ s.measure config adjustments track = .ok m
      ∧ c.undated = m.undated := by
  obtain ⟨track, m, _, htrack, hm, _, hc⟩ := calculate_eq_ok h
  refine ⟨track, m, htrack, hm, ?_⟩
  rcases hc with ⟨_, _, _, rfl⟩ | ⟨_, _, _, ⟨_, rfl⟩ | ⟨_, _, _, _, rfl⟩⟩ <;> rfl

/-- Parole is at the end of the adjusted days to parole, on a unit that is not recalled. -/
theorem date?_parole_of_calculate {s : Sentence} {c : UnitCalculation}
    (h : s.calculate config adjustments returned = .ok c) :
    ∃ track m, s.track? = some track ∧ s.measure config adjustments track = .ok m
      ∧ (c.date? .ped).map Date.day = if track = .recall then none else
        m.paroleDays.map fun days =>
          m.sentencedAt.day + max (wrap64 (days + adjustments.releaseDays) - 1) 0 := by
  obtain ⟨track, m, expiry, htrack, hmeasure, _, hc⟩ := calculate_eq_ok h
  obtain ⟨_, hm⟩ := measure_measured hmeasure
  -- neither expiry nor release is of this kind
  have hexpired : (m.record m.expiryKind expiry).date? .ped = none := by
    rw [UnitCalculation.date?_record, hm.date?_eq_none, if_neg]
    unfold UnitCalculation.expiryKind
    split <;> decide
  have hreleased (release : Breakdown) :
      ((m.record m.expiryKind expiry).record m.releaseKind release).date? .ped = none := by
    rw [UnitCalculation.date?_record, hexpired, if_neg]
    unfold UnitCalculation.releaseKind
    split <;> decide
  refine ⟨track, m, htrack, hmeasure, ?_⟩
  rcases hc with ⟨hrecall, after, _, rfl⟩
    | ⟨hrecall, release, _, ⟨hdays, rfl⟩ | ⟨days, parole, hdays, hparole, rfl⟩⟩
  · rw [UnitCalculation.date?_record, if_neg (by decide), hexpired, if_pos hrecall, Option.map_none]
  · rw [hreleased, if_neg hrecall, hdays, Option.map_none, Option.map_none]
  · rw [UnitCalculation.date?_record, if_pos rfl, if_neg hrecall, hdays, Option.map_some,
      Option.map_some, Breakdown.inclusive_eq_ok (fits64_wrap64 _) hparole]

end Sentence

/-! ## What a unit has -/

/-- A unit has the counts it was measured to have, the expiry date at the end of its adjusted days,
and unless it is recalled the release date at the end of its adjusted days to release, one of each
and with its breakdown. -/
structure Dated (track : Track) (m c : UnitCalculation) : Prop where
  expiry : ∃ x : Date, x.day = m.sentencedAt.day + max (m.adjustedExpiryDays - 1) 0
    ∧ ∀ kind : DateKind, kind.IsExpiry → c.date? kind = if kind = m.expiryKind then some x else none
  released : track ≠ .recall → ∃ r : Date,
    r.day = m.sentencedAt.day + max (m.adjustedReleaseDays - 1) 0
      ∧ ∀ kind : DateKind, kind.IsRelease →
        c.date? kind = if kind = m.releaseKind then some r else none
  recalled : track = .recall → ∀ kind : DateKind, kind.IsRelease → c.date? kind = none
  undated : c.undated = m
  inStep : c.InStep

namespace Dated

variable {track : Track} {m c : UnitCalculation}

/-- A date of another kind changes nothing of this. -/
theorem record (h : Dated track m c) {kind : DateKind} (hexpiry : ¬ kind.IsExpiry)
    (hrelease : ¬ kind.IsRelease) (b : Breakdown) : Dated track m (c.record kind b) := by
  have hframe {j : DateKind} (hne : j ≠ kind) : (c.record kind b).date? j = c.date? j := by
    rw [UnitCalculation.date?_record, if_neg hne]
  refine ⟨?_, fun hrecall => ?_, fun hrecall j hj => ?_, h.undated, h.inStep.record kind b⟩
  · obtain ⟨x, hx, hdates⟩ := h.expiry
    refine ⟨x, hx, fun j hj => ?_⟩
    rw [hframe (by rintro rfl; exact hexpiry hj), hdates j hj]
  · obtain ⟨r, hr, hdates⟩ := h.released hrecall
    refine ⟨r, hr, fun j hj => ?_⟩
    rw [hframe (by rintro rfl; exact hrelease hj), hdates j hj]
  · rw [hframe (by rintro rfl; exact hrelease hj), h.recalled hrecall j hj]

theorem releaseDate?_eq_none_iff (h : Dated track m c) :
    c.releaseDate? = none ↔ track = .recall := by
  constructor
  · intro hnone
    by_contra hrecall
    -- the unit would have a release date, of one kind or the other
    obtain ⟨r, _, hdates⟩ := h.released hrecall
    rw [UnitCalculation.releaseDate?, hdates .crd (.inl rfl), hdates .ard (.inr rfl),
      UnitCalculation.releaseKind] at hnone
    split at hnone <;> cases hnone
  · intro hrecall
    rw [UnitCalculation.releaseDate?, h.recalled hrecall .crd (.inl rfl),
      h.recalled hrecall .ard (.inr rfl)]
    rfl

end Dated

/-! ## The dates that a unit starts with -/

theorem UnitCalculation.expiryKind_isExpiry (c : UnitCalculation) : c.expiryKind.IsExpiry := by
  rw [expiryKind]
  split
  · exact .inl rfl
  · exact .inr rfl

theorem UnitCalculation.releaseKind_isRelease (c : UnitCalculation) : c.releaseKind.IsRelease := by
  rw [releaseKind]
  split
  · exact .inl rfl
  · exact .inr rfl

theorem Eligibility.kind_not (e : Eligibility) : ¬ e.kind.IsExpiry ∧ ¬ e.kind.IsRelease := by
  constructor
  · rintro (h | h) <;> rcases e with (_ | _) | _ | _ <;> cases h
  · rintro (h | h) <;> rcases e with (_ | _) | _ | _ <;> cases h

namespace Sentence

variable {config : Config} {adjustments : AppliedAdjustments} {s : Sentence} {a : Aggregate}
variable {m : UnitCalculation}

theorem Measured.dated_of_recall (hm : Measured config adjustments .recall s a m)
    {expiry : Breakdown}
    (hexpiry : Breakdown.inclusive m.sentencedAt m.expiryDays m.adjustedExpiryDays = .ok expiry) :
    Dated .recall m (m.record m.expiryKind expiry) := by
  refine ⟨⟨expiry.releaseDate, Breakdown.inclusive_eq_ok hm.fits_adjustedExpiryDays hexpiry,
    fun kind _ => ?_⟩, fun hrecall => absurd rfl hrecall, fun _ kind hkind => ?_, hm.undated,
    hm.inStep.record _ _⟩
  · rw [UnitCalculation.date?_record, hm.date?_eq_none]
  · rw [UnitCalculation.date?_record, hm.date?_eq_none, if_neg]
    rintro rfl
    exact m.expiryKind_isExpiry.not_isRelease hkind

theorem Measured.dated_of_release {track : Track} (hm : Measured config adjustments track s a m)
    (hrecall : track ≠ .recall) {expiry release : Breakdown}
    (hexpiry : Breakdown.inclusive m.sentencedAt m.expiryDays m.adjustedExpiryDays = .ok expiry)
    (hrelease : Breakdown.inclusive m.sentencedAt m.releaseDays m.adjustedReleaseDays
      = .ok release) :
    Dated track m ((m.record m.expiryKind expiry).record m.releaseKind release) := by
  refine ⟨⟨expiry.releaseDate, Breakdown.inclusive_eq_ok hm.fits_adjustedExpiryDays hexpiry,
    fun kind hkind => ?_⟩, fun _ => ⟨release.releaseDate,
    Breakdown.inclusive_eq_ok hm.fits_adjustedReleaseDays hrelease, fun kind hkind => ?_⟩,
    fun h => absurd h hrecall, hm.undated, (hm.inStep.record _ _).record _ _⟩
  · -- release is recorded after expiry, and is of another kind
    rw [UnitCalculation.date?_record, if_neg, UnitCalculation.date?_record, hm.date?_eq_none]
    rintro rfl
    exact hkind.not_isRelease m.releaseKind_isRelease
  · rw [UnitCalculation.date?_record, UnitCalculation.date?_record, hm.date?_eq_none,
      if_neg (c := kind = m.expiryKind)]
    rintro rfl
    exact m.expiryKind_isExpiry.not_isRelease hkind

/-- A unit starts with its expiry and release, and without a date of any scheme. -/
theorem calculate_dated {returned : Option Date} {c : UnitCalculation}
    (h : s.calculate config adjustments returned = .ok c) :
    ∃ track a m, s.track? = some track ∧ Measured config adjustments track s a m
      ∧ Dated track m c ∧ ∀ e : Eligibility, c.date? e.kind = none := by
  obtain ⟨track, m, expiry, htrack, hmeasure, hexpiry, hc⟩ := calculate_eq_ok h
  obtain ⟨a, hm⟩ := measure_measured hmeasure
  refine ⟨track, a, m, htrack, hm, ?_⟩
  -- expiry and release are of other kinds than the dates of schemes
  have hstart (e : Eligibility) : (m.record m.expiryKind expiry).date? e.kind = none := by
    rw [UnitCalculation.date?_record, hm.date?_eq_none, if_neg]
    intro heq
    exact e.kind_not.1 (heq ▸ m.expiryKind_isExpiry)
  have hreleased (release : Breakdown) (e : Eligibility) :
      ((m.record m.expiryKind expiry).record m.releaseKind release).date? e.kind = none := by
    rw [UnitCalculation.date?_record, hstart, if_neg]
    intro heq
    exact e.kind_not.2 (heq ▸ m.releaseKind_isRelease)
  rcases hc with ⟨rfl, after, _, rfl⟩
    | ⟨hrecall, release, hrelease, ⟨_, rfl⟩ | ⟨_, parole, _, _, rfl⟩⟩
  · refine ⟨(hm.dated_of_recall hexpiry).record (by rintro (h | h) <;> cases h)
      (by rintro (h | h) <;> cases h) after, fun e => ?_⟩
    rw [UnitCalculation.date?_record, hstart, if_neg (by rcases e with (_ | _) | _ | _ <;> decide)]
  · exact ⟨hm.dated_of_release hrecall hexpiry hrelease, hreleased release⟩
  · refine ⟨(hm.dated_of_release hrecall hexpiry hrelease).record (by rintro (h | h) <;> cases h)
      (by rintro (h | h) <;> cases h) parole, fun e => ?_⟩
    rw [UnitCalculation.date?_record, hreleased,
      if_neg (by rcases e with (_ | _) | _ | _ <;> decide)]

end Sentence

/-! ## The dates of schemes -/

/-- A scheme changes nothing, or it applies and adds its date. -/
theorem Eligibility.apply_eq_ok {config : Config} {offender : Offender} {unit : Sentence}
    {c : UnitCalculation} {e : Eligibility} {r : UnitCalculation × Bool}
    (h : e.apply config offender unit c = .ok r) :
    r.1 = c ∨ e.applies config offender unit c = .ok true ∧ ∃ b, r.1 = c.record e.kind b := by
  obtain ⟨found, hfound, h⟩ := Answered.bind_eq_ok.mp h
  obtain ⟨applies, happlies, hdate⟩ := Answered.bind_eq_ok.mp hfound
  cases found with
  | none =>
    cases h
    exact .inl rfl
  | some b =>
    cases h
    cases applies with
    | false => cases hdate
    | true => exact .inr ⟨happlies, b, rfl⟩

/-- The date of a scheme that applies to a recalled unit is not one before release: curfew is not
for units that are recalled, and removal not for those without release. -/
theorem Eligibility.not_isEligibility_of_recall {config : Config} {offender : Offender}
    {unit : Sentence} {c : UnitCalculation} {e : Eligibility}
    (happlies : e.applies config offender unit c = .ok true)
    (hrecall : unit.recallType.isRecall = true) (hrelease : c.releaseDate? = none) :
    ¬ e.kind.IsEligibility := by
  cases e with
  | curfew variant =>
    rw [applies, CurfewTerms.applies, hrecall, Bool.or_true, if_pos rfl] at happlies
    cases happlies
  | removal =>
    rw [applies, RemovalTerms.applies, hrelease, Option.isSome_none, Bool.and_false] at happlies
    cases happlies
  | supervision => rintro (h | h | h) <;> cases h

namespace Booking

variable {config : Config}

/-- **What adding one date keeps, the dates of all schemes keep.** -/
theorem recordSchemes_preserves {offender : Offender} {unit : Sentence} {P : UnitCalculation → Prop}
    (hrecord : ∀ c (e : Eligibility) b, P c → e.applies config offender unit c = .ok true →
      P (c.record e.kind b))
    {c c' : UnitCalculation} {schemes : List Eligibility} (hc : P c)
    (h : recordSchemes config offender unit c schemes = .ok c') : P c' := by
  refine Answered.foldlM_preserves (fun e _ c c' hc h => ?_) hc h
  simp only [Answered.bind_eq_ok, Answered.pure_eq_ok] at h
  obtain ⟨r, hr, rfl⟩ := h
  rcases Eligibility.apply_eq_ok hr with hsame | ⟨happlies, b, hrecorded⟩
  · exact hsame ▸ hc
  · exact hrecorded ▸ hrecord c e b hc happlies

/-- **The dates of a unit.** It has those that it starts with, and if its track is that of a recall
only when it is recalled, it has a date before release only with one of release. -/
theorem calculateUnit_dated {inputs : Inputs} {b : Booking} {entry : TimelineEntry}
    {c : UnitCalculation} (h : b.calculateUnit config inputs entry = .ok c) :
    ∃ adjustments track a m, b.adjustments.appliedTo entry.unit = .ok adjustments
      ∧ entry.unit.track? = some track
      ∧ Sentence.Measured config adjustments track entry.unit a m ∧ Dated track m c
      ∧ ((track = .recall → entry.unit.recallType.isRecall = true) →
        ∀ kind : DateKind, kind.IsEligibility → c.date? kind ≠ none → c.releaseDate? ≠ none) := by
  simp only [calculateUnit, Answered.bind_eq_ok] at h
  obtain ⟨adjustments, happlied, c₀, hc₀, h⟩ := h
  obtain ⟨track, a, m, htrack, hm, hdated, hnone⟩ := Sentence.calculate_dated hc₀
  refine ⟨adjustments, track, a, m, happlied, htrack, hm, ?_⟩
  have hrun : Dated track m c := recordSchemes_preserves
    (fun c e b hc _ => hc.record e.kind_not.1 e.kind_not.2 b) hdated h
  refine ⟨hrun, fun hrecalled kind hkind hdate hrelease => hdate ?_⟩
  have hrecall := hrun.releaseDate?_eq_none_iff.mp hrelease
  -- on a recalled unit no date before release is ever added to those it starts with
  refine (recordSchemes_preserves (P := fun c => Dated track m c ∧ c.date? kind = none)
    (fun c e b hc happlies => ?_) ⟨hdated, ?_⟩ h).2
  · refine ⟨hc.1.record e.kind_not.1 e.kind_not.2 b, ?_⟩
    rw [UnitCalculation.date?_record, hc.2, if_neg]
    rintro rfl
    exact Eligibility.not_isEligibility_of_recall happlies (hrecalled hrecall)
      (hc.1.releaseDate?_eq_none_iff.mpr hrecall) hkind
  · rcases hkind with rfl | rfl | rfl
    · exact hnone (.curfew .hdced)
    · exact hnone (.curfew .hdced4plus)
    · exact hnone .removal

theorem inStep_of_calculateUnit {inputs : Inputs} {b : Booking} {entry : TimelineEntry}
    {c : UnitCalculation} (h : b.calculateUnit config inputs entry = .ok c) : c.InStep := by
  obtain ⟨_, _, _, _, _, _, _, hdated, _⟩ := calculateUnit_dated h
  exact hdated.inStep

end Booking

end Custody
