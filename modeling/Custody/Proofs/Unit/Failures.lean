import Custody.Proofs.Config.InForce
import Custody.Proofs.Failing
import Custody.Proofs.Sentence.Contiguity
import Custody.Proofs.Unit.Dates

/-!
# How the calculation of a unit may fail

Every track has a multiplier, so of all settings only the fractions of the early removal scheme can
let a unit down: a unit that was passed before the first of them comes into force has none. All
other failures are of the booking. Each step is looked at on its own, and what the steps before it
have answered does not matter.

* **`Sentence.calculate_ofBooking`**: expiry and release.
* **`RemovalTerms.date_failsBy`**: the one scheme that settings can fail.
* **`Booking.calculateUnit_failsBy`**: the whole unit.
-/

namespace Custody

open Custody.Calendar Custody.Answered Custody.Failure

/-! ## Reckoning -/

@[simp] theorem Calendar.Date.plusDays_ofBooking (d : Date) (n : Int) :
    FailsBy OfBooking (d.plusDays n) := by
  simp [plusDays]

@[simp] theorem Calendar.Date.lastDay_ofBooking (d : Date) (n : Int) :
    FailsBy OfBooking (d.lastDay n) := by
  simp [lastDay]

@[simp] theorem Duration.endDate_ofBooking (d : Duration) (anchor : Date) :
    FailsBy OfBooking (d.endDate anchor) := by
  simp [endDate]

@[simp] theorem Duration.lengthInDays_ofBooking (d : Duration) (anchor : Date) :
    FailsBy OfBooking (d.lengthInDays anchor) := by
  simp [lengthInDays]

@[simp] theorem ceilDays_ofBooking (days : Decimal) : FailsBy OfBooking (ceilDays days) := by
  simp [ceilDays]

@[simp] theorem daysAtFraction_ofBooking (days : Int) (fraction : Decimal) :
    FailsBy OfBooking (daysAtFraction days fraction) := by
  simp [daysAtFraction]

/-! ## Length -/

@[simp] theorem Term.ends_ofBooking (t : Term) (start : Date) :
    FailsBy OfBooking (t.ends start) := by
  cases t <;> simp [ends]

@[simp] theorem Single.servedFrom_ofBooking (s : Single) (start : Date) :
    FailsBy OfBooking (s.servedFrom start) := by
  simp [servedFrom]

namespace Sentence

@[simp] theorem layOut_ofBooking (start : Date) (components : List Sentence) :
    FailsBy OfBooking (layOut start components) := by
  induction components generalizing start with
  | nil => simp [layOut]
  | cons component rest ih => simp [layOut, ih]

@[simp] theorem aggregate_ofBooking (s : Sentence) : FailsBy OfBooking s.aggregate := by
  simp [aggregate]

/-! ## Expiry and release -/

section Multipliers

variable {config : Config}
  (hpoints : ∀ track, ∃ m, config.releasePoints.multipliers.get? track = some m)

include hpoints

theorem servedDays_ofBooking (parts : List Part) :
    FailsBy OfBooking (servedDays config.releasePoints parts) := by
  refine FailsBy.foldlM (P := fun _ => True) trivial (fun _ _ _ _ _ _ => trivial) ?_
  intro part _ served _
  have hmultiplier (track : Track) :
      FailsBy OfBooking (config.releasePoints.multiplierFor track) := by
    obtain ⟨m, hm⟩ := hpoints track
    simp [ReleasePoints.multiplierFor, hm]
  simp [hmultiplier]

theorem daysToRelease_ofBooking (track : Track) (a : Aggregate) :
    FailsBy OfBooking (daysToRelease config.releasePoints track a) := by
  simp [daysToRelease, servedDays_ofBooking hpoints]

omit hpoints in
theorem daysToParole_ofBooking (points : ReleasePoints) (track : Track) (a : Aggregate) :
    FailsBy OfBooking (daysToParole? points track a) := by
  unfold daysToParole?
  split <;> simp

omit hpoints in
theorem releasedOnLicence_ofBooking (config : Config) (track : Track) (s : Sentence)
    (a : Aggregate) : FailsBy OfBooking (releasedOnLicence config track s a) := by
  cases track <;> simp [releasedOnLicence]

theorem measure_ofBooking (adjustments : AppliedAdjustments) (track : Track) (s : Sentence) :
    FailsBy OfBooking (s.measure config adjustments track) := by
  simp [measure, daysToRelease_ofBooking hpoints, daysToParole_ofBooking,
    releasedOnLicence_ofBooking]

omit hpoints in
@[simp] theorem inclusive_ofBooking (start : Date) (unadjustedDays adjustedDays : Int) :
    FailsBy OfBooking (Breakdown.inclusive start unadjustedDays adjustedDays) := by
  simp [Breakdown.inclusive]

omit hpoints in
theorem releaseAfterRecall_ofBooking (type : RecallType) (licenceExpiry : Date)
    (returned : Option Date) :
    FailsBy OfBooking (releaseAfterRecall type licenceExpiry returned) := by
  cases type <;> simp [releaseAfterRecall, RecallType.fixedTermDays?]

theorem calculate_ofBooking (adjustments : AppliedAdjustments) (returned : Option Date)
    (s : Sentence) : FailsBy OfBooking (s.calculate config adjustments returned) := by
  simp only [calculate, failsBy_bind, failsBy_orFail, failsBy_ite, failsBy_pure,
    measure_ofBooking hpoints, releaseAfterRecall_ofBooking, inclusive_ofBooking]
  simp only [ofBooking_breach, implies_true, true_and]
  intro _ _ c _ expiry _ _ release _
  split <;> simp

end Multipliers

/-- A unit is calculated from the date it was passed on. -/
theorem Measured.sentencedAt?_eq {config : Config} {adjustments : AppliedAdjustments}
    {track : Track} {s : Sentence} {a : Aggregate} {m c : UnitCalculation}
    (hm : Measured config adjustments track s a m) (hundated : c.undated = m) :
    s.sentencedAt? = some c.sentencedAt := by
  have hsame : c.sentencedAt = m.sentencedAt := congrArg (·.sentencedAt) hundated
  rw [hsame, hm.sentencedAt]
  exact (aggregate_eq_ok.mp hm.aggregate).1

theorem sentencedAt_of_calculate {config : Config} {adjustments : AppliedAdjustments}
    {returned : Option Date} {s : Sentence} {c : UnitCalculation}
    (h : s.calculate config adjustments returned = .ok c) :
    s.sentencedAt? = some c.sentencedAt := by
  obtain ⟨_, _, _, _, hm, hdated, _⟩ := calculate_dated h
  exact hm.sentencedAt?_eq hdated.undated

end Sentence

theorem Booking.sentencedAt_of_calculateUnit {config : Config} {inputs : Inputs} {b : Booking}
    {entry : TimelineEntry} {c : UnitCalculation}
    (h : b.calculateUnit config inputs entry = .ok c) :
    entry.unit.sentencedAt? = some c.sentencedAt := by
  obtain ⟨_, _, _, _, _, _, hm, hdated, _⟩ := calculateUnit_dated h
  exact hm.sentencedAt?_eq hdated.undated

/-! ## Schemes -/

namespace CurfewTerms

theorem allowsLength_ofBooking (terms : CurfewTerms) (sentencedAt : Date) (days : Int) :
    FailsBy OfBooking (terms.allowsLength sentencedAt days) := by
  unfold allowsLength
  cases terms.minimumYears <;> cases terms.maximumYears <;> simp

theorem applies_ofBooking (terms : CurfewTerms) (offender : Offender) (unit : Sentence)
    (c : UnitCalculation) : FailsBy OfBooking (terms.applies offender unit c) := by
  simp [applies, allowsLength_ofBooking]

theorem date_ofBooking (terms : CurfewTerms) (curfew : Curfew) (c : UnitCalculation)
    (botusDays : Int) : FailsBy OfBooking (terms.date curfew c botusDays) := by
  simp [date, undelayed, afterBotus]

end CurfewTerms

namespace SupervisionTerms

theorem applies_ofBooking (terms : SupervisionTerms) (since : Date) (offender : Offender)
    (unit : Sentence) (c : UnitCalculation) :
    FailsBy OfBooking (terms.applies since offender unit c) := by
  simp [applies]

theorem date_ofBooking (terms : SupervisionTerms) (holidays : List Date) (c : UnitCalculation) :
    FailsBy OfBooking (terms.date holidays c) := by
  simp [date, supervisionEnd, previousWorkingDay]

end SupervisionTerms

namespace RemovalTerms

variable {terms : RemovalTerms} {c : UnitCalculation}

/-- A failure is that no fraction is in force on a date, and all come into force later. -/
def LacksFraction (terms : RemovalTerms) (date : Date) (e : Failure) : Prop :=
  e = .invalidConfig (.noFractionOn date) ∧ ∀ f ∈ terms.fractions, date < f.effectiveFrom

theorem date_failsBy :
    FailsBy (fun e => e.OfBooking ∨ terms.LacksFraction c.sentencedAt e) (terms.date c) := by
  cases h : terms.fractionOn? c.sentencedAt with
  | none =>
    have hfraction : terms.date c = .error (.invalidConfig (.noFractionOn c.sentencedAt)) := by
      simp only [date, unlimited, h]
      rfl
    rw [hfraction, failsBy_error]
    exact .inr ⟨rfl, fractionOn?_eq_none_iff.mp h⟩
  | some fraction =>
    have hdate : FailsBy OfBooking (terms.date c) := by simp [date, unlimited, h]
    exact hdate.mono fun _ => .inl

end RemovalTerms

namespace Eligibility

variable {config : Config} {offender : Offender} {unit : Sentence} {c : UnitCalculation}
  {e : Eligibility}

theorem applies_ofBooking (e : Eligibility) :
    FailsBy OfBooking (e.applies config offender unit c) := by
  cases e with
  | curfew variant => exact CurfewTerms.applies_ofBooking _ offender unit c
  | removal => exact failsBy_ok _
  | supervision => exact SupervisionTerms.applies_ofBooking _ _ offender unit c

/-- Of all schemes only early removal may lack a setting. -/
theorem date_failsBy (e : Eligibility) (botusDays : Int) :
    FailsBy (fun failure => failure.OfBooking
      ∨ e = .removal ∧ config.ersed.LacksFraction c.sentencedAt failure)
      (e.date config c botusDays) := by
  cases e with
  | curfew variant =>
    exact (CurfewTerms.date_ofBooking _ variant c botusDays).mono fun _ => .inl
  | removal => exact RemovalTerms.date_failsBy.mono fun _ => Or.imp_right fun h => ⟨rfl, h⟩
  | supervision => exact (SupervisionTerms.date_ofBooking _ _ c).mono fun _ => .inl

variable {fails : Failure → Prop}

/-- A scheme fails as the question whether it applies does, or as its date does. -/
theorem apply_failsBy (happlies : FailsBy fails (e.applies config offender unit c))
    (hdate : FailsBy fails (e.date config c c.botusDaysFirst)) :
    FailsBy fails (e.apply config offender unit c) := by
  have hdate? : FailsBy fails (e.date? config offender unit c) := by
    rw [date?, failsBy_bind]
    exact ⟨happlies, fun _ _ => by simp [hdate]⟩
  rw [apply, failsBy_bind]
  refine ⟨hdate?, fun found _ => ?_⟩
  cases found <;> simp

end Eligibility

/-! ## The whole unit -/

namespace Booking

variable {config : Config} {inputs : Inputs} {b : Booking} {entry : TimelineEntry}

theorem removal_mem_schemes :
    Eligibility.removal ∈ schemes inputs ↔ inputs.calculateErsed = true := by
  simp [schemes, Enumeration.mem_all]

/-- A run of schemes fails as one of them does, on the counts of the unit that it starts with. -/
theorem recordSchemes_failsBy {fails : Failure → Prop} {offender : Offender} {unit : Sentence}
    {c : UnitCalculation} {schemes : List Eligibility}
    (h : ∀ e ∈ schemes, ∀ c', c'.undated = c.undated →
      FailsBy fails (e.applies config offender unit c')
        ∧ FailsBy fails (e.date config c' c'.botusDaysFirst)) :
    FailsBy fails (recordSchemes config offender unit c schemes) := by
  -- the counts stay as they are, and nothing else is asked of the calculation
  refine FailsBy.foldlM (P := fun c' => c'.undated = c.undated) rfl ?_ ?_
  · intro e _ c₁ c₂ hc₁ hstep
    simp only [bind_eq_ok, pure_eq_ok] at hstep
    obtain ⟨r, hr, rfl⟩ := hstep
    rcases Eligibility.apply_eq_ok hr with hsame | ⟨_, b, hrecorded⟩
    · rw [hsame, hc₁]
    · rw [hrecorded, ← hc₁]
      rfl
  · intro e he c' hc'
    obtain ⟨happlies, hdate⟩ := h e he c' hc'
    rw [failsBy_bind]
    exact ⟨Eligibility.apply_failsBy happlies hdate, fun _ _ => failsBy_pure _⟩

/-- **How the calculation of a unit may fail.** Of settings that can be used it lacks a fraction of
the early removal scheme at most, and that only when the scheme is asked for. -/
theorem calculateUnit_failsBy
    (hpoints : ∀ track, ∃ m, config.releasePoints.multipliers.get? track = some m)
    (hsentenced : entry.unit.sentencedAt? = some entry.sentencedAt) :
    FailsBy (fun failure => failure.OfBooking
      ∨ inputs.calculateErsed = true ∧ config.ersed.LacksFraction entry.sentencedAt failure)
      (b.calculateUnit config inputs entry) := by
  rw [calculateUnit, failsBy_bind]
  refine ⟨by simp [Adjustments.appliedTo], fun adjustments _ => ?_⟩
  rw [failsBy_bind]
  refine ⟨(Sentence.calculate_ofBooking hpoints adjustments _ _).mono fun _ => .inl, ?_⟩
  intro c hc
  have hdate : c.sentencedAt = entry.sentencedAt :=
    Option.some.inj ((Sentence.sentencedAt_of_calculate hc).symm.trans hsentenced)
  -- of the schemes removal alone may lack a setting, and only if it was asked for
  refine recordSchemes_failsBy fun e he c' hundated => ⟨?_, ?_⟩
  · exact e.applies_ofBooking.mono fun _ => .inl
  · have hsame : c'.sentencedAt = entry.sentencedAt :=
      (congrArg (·.sentencedAt) hundated).trans hdate
    rw [← hsame]
    exact (e.date_failsBy _).mono fun failure =>
      Or.imp_right fun h => ⟨removal_mem_schemes.mp (h.1 ▸ he), h.2⟩

end Booking

end Custody
