import Custody.Proofs.Unit.Dates
import Custody.Proofs.Unit.ReleasePoint

/-!
# A unit under both assumptions

An assumption decides on tracks, and through them on the days to release. Nothing else of a unit
depends on it: both calculations start from the same date, and have the same breakdown of each kind
that is not sensitive to early release, expiry and release after a recall among them.

* **`Measured.agree`**: the counts that do not depend on the assumption.
* **`UnitCalculation.Agree`**: what two calculations of a unit have in common.
* **`Booking.calculateUnit_agree`**: the calculations of a unit under the two assumptions.
-/

namespace Custody

open Custody.Calendar

variable {config : Config} {inputs : Inputs} {adjustments : AppliedAdjustments}
variable {unit standard early : Sentence} {track track' : Track}

/-! ## Counts -/

namespace Sentence

theorem offences_eq_of_untracked_eq {s t : Sentence} (h : s.untracked = t.untracked) :
    s.offences = t.offences := by
  rw [← offences_untracked, h, offences_untracked]

/-- Whether release is on licence does not depend on which of the tracks of standard determinate
sentences a unit is on. -/
theorem releasedOnLicence_eased {s s' : Sentence} {a a' : Aggregate}
    (htracks : track = track' ∨ track.isSds = true ∧ track'.isSds = true)
    (hs : s.untracked = s'.untracked) (ha : a.untracked = a'.untracked) :
    releasedOnLicence config track s a = releasedOnLicence config track' s' a' := by
  have hsentenced : a.sentencedAt = a'.sentencedAt := (congrArg Aggregate.sentencedAt ha :)
  have htotal : a.totalDays = a'.totalDays := (congrArg Aggregate.totalDays ha :)
  have hoffences := offences_eq_of_untracked_eq hs
  rcases htracks with rfl | ⟨hsds, hsds'⟩
  · cases track <;> simp only [releasedOnLicence, hsentenced, htotal, hoffences]
  -- on all tracks of standard determinate sentences the same test decides
  · cases track <;> cases hsds <;> cases track' <;> cases hsds' <;>
      simp only [releasedOnLicence, hsentenced, htotal, hoffences]

theorem Measured.agree {a a' : Aggregate} {m m' : UnitCalculation}
    (hs : ClassifiedAs config inputs .standard unit standard)
    (he : ClassifiedAs config inputs .early unit early)
    (htracks : track = track' ∨ track.isSds = true ∧ track'.isSds = true)
    (hm : Measured config adjustments track standard a m)
    (hm' : Measured config adjustments track' early a' m') :
    m.sentencedAt = m'.sentencedAt ∧ m.expiryDays = m'.expiryDays
      ∧ m.adjustedExpiryDays = m'.adjustedExpiryDays ∧ m.hasLicence = m'.hasLicence := by
  -- the layouts differ in the tracks of the parts alone
  obtain ⟨huntracked, _⟩ := hs.aggregate_eased he hm.aggregate hm'.aggregate
  have hsentenced : a.sentencedAt = a'.sentencedAt := (congrArg Aggregate.sentencedAt huntracked :)
  have hdays : a.totalDays = a'.totalDays := (congrArg Aggregate.totalDays huntracked :)
  have hlicence : releasedOnLicence config track standard a
      = releasedOnLicence config track' early a' :=
    releasedOnLicence_eased htracks (hs.untracked_eq.trans he.untracked_eq.symm) huntracked
  rw [hm.hasLicence, hm'.hasLicence] at hlicence
  refine ⟨?_, ?_, ?_, Except.ok.inj hlicence⟩
  · rw [hm.sentencedAt, hm'.sentencedAt, hsentenced]
  · rw [hm.expiryDays, hm'.expiryDays, hdays]
  · rw [hm.adjustedExpiryDays, hm'.adjustedExpiryDays, hm.expiryDays, hm'.expiryDays, hdays]

end Sentence

/-! ## Dates -/

/-- Two calculations of a unit agree on all that is not sensitive to early release. -/
structure UnitCalculation.Agree (c c' : UnitCalculation) : Prop where
  sentencedAt : c.sentencedAt = c'.sentencedAt
  breakdown : ∀ kind ∉ DateKind.earlyReleaseSensitive,
    c.breakdowns.get? kind = c'.breakdowns.get? kind

namespace UnitCalculation.Agree

variable {c c' : UnitCalculation} {kind : DateKind}

theorem refl (c : UnitCalculation) : Agree c c := ⟨rfl, fun _ _ => rfl⟩

theorem symm (h : Agree c c') : Agree c' c where
  sentencedAt := h.sentencedAt.symm
  breakdown kind hkind := (h.breakdown kind hkind).symm

theorem trans {c'' : UnitCalculation} (h : Agree c c') (h' : Agree c' c'') : Agree c c'' where
  sentencedAt := h.sentencedAt.trans h'.sentencedAt
  breakdown kind hkind := (h.breakdown kind hkind).trans (h'.breakdown kind hkind)

theorem record (h : Agree c c') (kind : DateKind) (b : Breakdown) :
    Agree (c.record kind b) (c'.record kind b) where
  sentencedAt := h.sentencedAt
  breakdown j hj := by
    show (c.breakdowns.insert kind b).get? j = (c'.breakdowns.insert kind b).get? j
    rw [Table.get?_insert, Table.get?_insert, h.breakdown j hj]

/-- What is sensitive to early release may be put in on one side alone. -/
theorem record_left (h : Agree c c') (hkind : kind ∈ DateKind.earlyReleaseSensitive)
    (b : Breakdown) : Agree (c.record kind b) c' where
  sentencedAt := h.sentencedAt
  breakdown j hj := by
    have hne : j ≠ kind := by
      rintro rfl
      exact hj hkind
    show (c.breakdowns.insert kind b).get? j = _
    rw [Table.get?_insert, if_neg hne, h.breakdown j hj]

end UnitCalculation.Agree

theorem UnitCalculation.releaseKind_mem (c : UnitCalculation) :
    c.releaseKind ∈ DateKind.earlyReleaseSensitive :=
  c.releaseKind_isRelease.mem_earlyReleaseSensitive

theorem Eligibility.kind_mem (e : Eligibility) : e.kind ∈ DateKind.earlyReleaseSensitive := by
  rcases e with (_ | _) | _ | _ <;> decide

namespace Sentence

/-- A unit that is not recalled starts with its expiry and with dates that are sensitive to early
release. -/
theorem agree_of_release {m c : UnitCalculation} {expiry release : Breakdown}
    (h : m.paroleDays = none ∧ c = (m.record m.expiryKind expiry).record m.releaseKind release
      ∨ ∃ days parole, m.paroleDays = some days
        ∧ Breakdown.inclusive m.sentencedAt days (wrap64 (days + adjustments.releaseDays))
          = .ok parole
        ∧ c = ((m.record m.expiryKind expiry).record m.releaseKind release).record .ped parole) :
    UnitCalculation.Agree c (m.record m.expiryKind expiry) := by
  have hrelease := (UnitCalculation.Agree.refl (m.record m.expiryKind expiry)).record_left
    m.releaseKind_mem release
  rcases h with ⟨_, rfl⟩ | ⟨_, parole, _, _, rfl⟩
  · exact hrelease
  · exact hrelease.record_left (by decide) parole

/-- Two calculations that measure the same expiry start with the same dates, besides those that are
sensitive to early release. -/
theorem agree_of_measure {s s' : Sentence} {adjustments' : AppliedAdjustments}
    {returned : Option Date} {c c' : UnitCalculation} (htype : s.recallType = s'.recallType)
    (hmeasure : ∀ track track' m m', s.track? = some track → s'.track? = some track' →
      s.measure config adjustments track = .ok m → s'.measure config adjustments' track' = .ok m' →
      (track = .recall ↔ track' = .recall) ∧ m.sentencedAt = m'.sentencedAt
        ∧ m.expiryDays = m'.expiryDays ∧ m.adjustedExpiryDays = m'.adjustedExpiryDays
        ∧ m.hasLicence = m'.hasLicence)
    (h : s.calculate config adjustments returned = .ok c)
    (h' : s'.calculate config adjustments' returned = .ok c') : UnitCalculation.Agree c c' := by
  obtain ⟨track, m, expiry, htrack, hm, hexpiry, hc⟩ := calculate_eq_ok h
  obtain ⟨track', m', expiry', htrack', hm', hexpiry', hc'⟩ := calculate_eq_ok h'
  obtain ⟨hrecall, hsentenced, hdays, hadjusted, hlicence⟩ :=
    hmeasure track track' m m' htrack htrack' hm hm'
  obtain ⟨_, hm⟩ := measure_measured hm
  obtain ⟨_, hm'⟩ := measure_measured hm'
  -- expiry follows from counts that are the same, and so does its kind
  rw [hsentenced, hdays, hadjusted, hexpiry'] at hexpiry
  cases hexpiry
  have hkind : m.expiryKind = m'.expiryKind := by
    unfold UnitCalculation.expiryKind
    rw [hlicence]
  have hnone {n : UnitCalculation} (hdate : ∀ kind, n.date? kind = none) (hstep : n.InStep)
      (kind : DateKind) : n.breakdowns.get? kind = none :=
    (hstep.get?_eq_none_iff kind).mp (hdate kind)
  have hstart : UnitCalculation.Agree m m' := by
    refine ⟨hsentenced, fun kind _ => ?_⟩
    rw [hnone hm.date?_eq_none hm.inStep, hnone hm'.date?_eq_none hm'.inStep]
  have hexpired : UnitCalculation.Agree (m.record m.expiryKind expiry)
      (m'.record m'.expiryKind expiry) := by
    rw [hkind]
    exact hstart.record _ _
  rcases hc with ⟨hr, after, hafter, rfl⟩ | ⟨hr, release, _, hc⟩
  · rcases hc' with ⟨_, after', hafter', rfl⟩ | ⟨hr', _⟩
    · -- both were recalled in the same way, and returned to custody on the same date
      rw [htype, hafter'] at hafter
      cases hafter
      exact hexpired.record .prrd after
    · exact absurd (hrecall.mp hr) hr'
  · rcases hc' with ⟨hr', _⟩ | ⟨_, release', _, hc'⟩
    · exact absurd (hrecall.mpr hr') hr
    · exact (agree_of_release hc).trans (hexpired.trans (agree_of_release hc').symm)

theorem calculate_agree {returned : Option Date} {c c' : UnitCalculation}
    (hs : ClassifiedAs config inputs .standard unit standard)
    (he : ClassifiedAs config inputs .early unit early) (hcovered : unit.checkCovered = .ok ())
    (h : standard.calculate config adjustments returned = .ok c)
    (h' : early.calculate config adjustments returned = .ok c') : UnitCalculation.Agree c c' := by
  refine agree_of_measure
    (recallType_eq_of_untracked_eq (hs.untracked_eq.trans he.untracked_eq.symm)) ?_ h h'
  intro track track' m m' htrack htrack' hm hm'
  obtain ⟨a, hm⟩ := measure_measured hm
  obtain ⟨a', hm'⟩ := measure_measured hm'
  have htracks := hs.tracks_agree he hcovered htrack htrack'
  exact ⟨Track.recall_iff_of_agree htracks, hm.agree hs he htracks hm'⟩

end Sentence

namespace Booking

/-- The dates of schemes are all sensitive to early release. -/
theorem recordSchemes_agree {offender : Offender} {unit : Sentence} {schemes : List Eligibility}
    {c c' : UnitCalculation} (h : recordSchemes config offender unit c schemes = .ok c') :
    UnitCalculation.Agree c' c :=
  recordSchemes_preserves (P := fun c' => UnitCalculation.Agree c' c)
    (fun _ e b hc _ => hc.record_left e.kind_mem b) (.refl c) h

end Booking

end Custody
