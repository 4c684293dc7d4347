import Custody.Proofs.Unit.Dates

/-!
# The dates of schemes side by side

A scheme looks at the counts of a unit and at its release, and no scheme changes either. So the
schemes do not see one another: each gives the date that it gives on its own, in whatever order they
are taken, and leaves all others as they are.

* **`Eligibility.date?_congr`**: what a scheme looks at.
* **`Schemed`**, **`recordSchemes_schemed`**: what a run of schemes comes to.
* **`Booking.breakdown_of_scheme`**: a unit has of a scheme what the scheme gives it.
-/

namespace Custody

open Custody.Calendar

variable {config : Config} {offender : Offender} {unit : Sentence} {c c' : UnitCalculation}

/-! ## One scheme -/

namespace Eligibility

theorem kind_injective {e e' : Eligibility} (h : e.kind = e'.kind) : e = e' := by
  rcases e with (_ | _) | _ | _ <;> rcases e' with (_ | _) | _ | _ <;> first | rfl | cases h

/-- A scheme looks at the counts of a unit and at its release. -/
theorem date?_congr (hundated : c.undated = c'.undated)
    (hrelease : c.releaseDate? = c'.releaseDate?) (e : Eligibility) :
    e.date? config offender unit c = e.date? config offender unit c' := by
  have happlies : e.applies config offender unit c = e.applies config offender unit c' := by
    have hsentenced : c.sentencedAt = c'.sentencedAt := congrArg (·.sentencedAt) hundated
    have hexpiry : c.expiryDays = c'.expiryDays := congrArg (·.expiryDays) hundated
    have hbotus : c.botusDaysFirst = c'.botusDaysFirst := congrArg (·.botusDaysFirst) hundated
    cases e with
    | curfew variant =>
      unfold applies CurfewTerms.applies
      rw [hsentenced, hexpiry, hbotus]
    | removal =>
      unfold applies RemovalTerms.applies
      rw [hrelease]
    | supervision =>
      unfold applies SupervisionTerms.applies
      rw [hsentenced, hexpiry, hrelease]
  have hdate : e.date config c c.botusDaysFirst = e.date config c' c'.botusDaysFirst := by
    -- the dates are worked out without a look at other dates
    show e.date config c.undated c.undated.botusDaysFirst
      = e.date config c'.undated c'.undated.botusDaysFirst
    rw [hundated]
  unfold date?
  rw [happlies, hdate]

theorem date?_eq_ok {e : Eligibility} {found : Option Breakdown}
    (h : e.date? config offender unit c = .ok found) :
    e.applies config offender unit c = .ok found.isSome
      ∧ ∀ b, found = some b → e.date config c c.botusDaysFirst = .ok b := by
  obtain ⟨applies, happlies, h⟩ := Answered.bind_eq_ok.mp h
  cases applies with
  | false =>
    cases h
    exact ⟨happlies, fun b hb => by cases hb⟩
  | true =>
    obtain ⟨b, hb, h⟩ := Answered.bind_eq_ok.mp h
    cases h
    refine ⟨happlies, fun b' hb' => ?_⟩
    cases hb'
    exact hb

end Eligibility

/-! ## A run of schemes -/

theorem UnitCalculation.releaseDate?_congr
    (h : ∀ kind : DateKind, kind.IsRelease → c.date? kind = c'.date? kind) :
    c.releaseDate? = c'.releaseDate? := by
  unfold releaseDate?
  rw [h .crd (.inl rfl), h .ard (.inr rfl)]

theorem UnitCalculation.InStep.recordFound (h : c.InStep) (kind : DateKind)
    (found : Option Breakdown) : ((found.map (c.record kind)).getD c).InStep := by
  cases found with
  | none => exact h
  | some b => exact h.record kind b

/-- A unit before and after a run of schemes: its counts are what they were, of each scheme there is
what the scheme gives, and nothing else has changed. -/
structure Schemed (config : Config) (offender : Offender) (unit : Sentence)
    (schemes : List Eligibility) (before after : UnitCalculation) : Prop where
  undated : after.undated = before.undated
  given : ∀ e ∈ schemes, ∃ found, e.date? config offender unit before = .ok found
    ∧ after.breakdowns.get? e.kind = found.or (before.breakdowns.get? e.kind)
  others : ∀ kind, (∀ e ∈ schemes, e.kind ≠ kind) →
    after.breakdowns.get? kind = before.breakdowns.get? kind
  inStep : before.InStep → after.InStep

namespace Schemed

variable {schemes : List Eligibility}

theorem nil (c : UnitCalculation) : Schemed config offender unit [] c c where
  undated := rfl
  given _ he := absurd he List.not_mem_nil
  others _ _ := rfl
  inStep h := h

theorem date?_of_others (h : Schemed config offender unit schemes c c') (hc : c.InStep)
    {kind : DateKind} (hkind : ∀ e ∈ schemes, e.kind ≠ kind) : c'.date? kind = c.date? kind := by
  rw [(h.inStep hc).date?_eq, hc.date?_eq, h.others kind hkind]

theorem releaseDate?_eq (h : Schemed config offender unit schemes c c') (hc : c.InStep) :
    c'.releaseDate? = c.releaseDate? :=
  UnitCalculation.releaseDate?_congr fun _ hrelease =>
    h.date?_of_others hc fun e _ heq => e.kind_not.2 (heq ▸ hrelease)

/-- Where there is no such date to begin with, there is after the run what the scheme gives. -/
theorem date?_eq (h : Schemed config offender unit schemes c c') {e : Eligibility}
    (he : e ∈ schemes) (hnone : c.breakdowns.get? e.kind = none) :
    e.date? config offender unit c = .ok (c'.breakdowns.get? e.kind) := by
  obtain ⟨found, hfound, hgiven⟩ := h.given e he
  rw [hfound, hgiven, hnone, Option.or_none]

/-- One more scheme in front records its date, and no other looks at that. -/
theorem cons {e : Eligibility} {found : Option Breakdown} {start : UnitCalculation}
    (hnotMem : e ∉ schemes) (hfound : e.date? config offender unit c = .ok found)
    (hstart : start = (found.map (c.record e.kind)).getD c) (hc : c.InStep)
    (h : Schemed config offender unit schemes start c') :
    Schemed config offender unit (e :: schemes) c c' := by
  have hundated : start.undated = c.undated := by
    subst hstart
    cases found <;> rfl
  have hget (kind : DateKind) : start.breakdowns.get? kind
      = if kind = e.kind then found.or (c.breakdowns.get? kind) else c.breakdowns.get? kind := by
    subst hstart
    cases found with
    | none => simp
    | some b => rfl
  have hstep : start.InStep := hstart ▸ hc.recordFound e.kind found
  have hrelease : start.releaseDate? = c.releaseDate? := by
    refine UnitCalculation.releaseDate?_congr fun kind hkind => ?_
    rw [hstep.date?_eq, hc.date?_eq, hget, if_neg]
    exact fun heq => e.kind_not.2 (heq ▸ hkind)
  refine ⟨h.undated.trans hundated, fun e' he' => ?_, fun kind hkind => ?_, fun _ => h.inStep hstep⟩
  · rcases List.mem_cons.mp he' with rfl | he'
    · -- no scheme after it is of the same kind
      refine ⟨found, hfound, ?_⟩
      rw [h.others e'.kind, hget, if_pos rfl]
      intro e he heq
      exact hnotMem (Eligibility.kind_injective heq ▸ he)
    · obtain ⟨found', hfound', hgiven⟩ := h.given e' he'
      rw [Eligibility.date?_congr hundated hrelease] at hfound'
      refine ⟨found', hfound', ?_⟩
      rw [hgiven, hget, if_neg]
      intro heq
      exact hnotMem (Eligibility.kind_injective heq ▸ he')
  · rw [List.forall_mem_cons] at hkind
    rw [h.others kind hkind.2, hget, if_neg (Ne.symm hkind.1)]

end Schemed

/-- A unit starts with its dates in step, and without a date of any scheme. -/
theorem Sentence.inStep_of_calculate {adjustments : AppliedAdjustments} {returned : Option Date}
    (h : unit.calculate config adjustments returned = .ok c) :
    c.InStep ∧ ∀ e : Eligibility, c.breakdowns.get? e.kind = none := by
  obtain ⟨_, _, _, _, _, hdated, hnone⟩ := calculate_dated h
  exact ⟨hdated.inStep, fun e => (hdated.inStep.get?_eq_none_iff e.kind).mp (hnone e)⟩

/-- A scheme records its date if it gives one. -/
theorem Eligibility.apply_eq_ok_iff {e : Eligibility} {r : UnitCalculation × Bool} :
    e.apply config offender unit c = .ok r
      ↔ ∃ found, e.date? config offender unit c = .ok found
        ∧ r = ((found.map (c.record e.kind)).getD c, found.isSome) := by
  unfold apply
  rw [Answered.bind_eq_ok]
  refine exists_congr fun found => and_congr_right fun _ => ?_
  cases found with
  | none => exact Answered.pure_eq_ok.trans eq_comm
  | some b => exact Answered.pure_eq_ok.trans eq_comm

/-- The calculation of a unit that has been classified, with the dates of some schemes. -/
def Sentence.calculateWith (config : Config) (offender : Offender)
    (adjustments : AppliedAdjustments) (returned : Option Date) (schemes : List Eligibility)
    (unit : Sentence) : Answered UnitCalculation := do
  let start ← unit.calculate config adjustments returned
  Booking.recordSchemes config offender unit start schemes

namespace Booking

/-- **What a run of schemes comes to**, by induction on the schemes that are still to come. -/
theorem recordSchemes_schemed {schemes : List Eligibility} (hnodup : schemes.Nodup) (hc : c.InStep)
    (h : recordSchemes config offender unit c schemes = .ok c') :
    Schemed config offender unit schemes c c' := by
  induction schemes generalizing c with
  | nil =>
    cases h
    exact .nil _
  | cons e schemes ih =>
    rw [List.nodup_cons] at hnodup
    unfold recordSchemes at h
    simp only [List.foldlM_cons, Answered.bind_eq_ok, Answered.pure_eq_ok] at h
    obtain ⟨start, ⟨r, hr, hstart⟩, h⟩ := h
    obtain ⟨found, hfound, rfl⟩ := Eligibility.apply_eq_ok_iff.mp hr
    -- the calculation that the other schemes start from is in step too
    have hstep : start.InStep := hstart ▸ hc.recordFound e.kind found
    exact .cons hnodup.1 hfound hstart.symm hc (ih hnodup.2 hstep h)

/-! ## The schemes of a booking -/

variable {b : Booking} {inputs : Inputs} {entry : TimelineEntry}

theorem nodup_schemes (inputs : Inputs) : (schemes inputs).Nodup :=
  Enumeration.nodup_all.filter _

theorem curfew_mem_schemes (inputs : Inputs) (variant : Curfew) :
    Eligibility.curfew variant ∈ schemes inputs := by
  unfold schemes
  rw [List.mem_filter]
  exact ⟨Enumeration.mem_all _, rfl⟩

theorem supervision_mem_schemes (inputs : Inputs) : Eligibility.supervision ∈ schemes inputs := by
  unfold schemes
  rw [List.mem_filter]
  exact ⟨Enumeration.mem_all _, rfl⟩

/-- The dates of a unit are those that it starts with and those of schemes. -/
theorem calculateUnit_eq_ok (h : b.calculateUnit config inputs entry = .ok c) :
    ∃ adjustments start, b.adjustments.appliedTo entry.unit = .ok adjustments
      ∧ entry.unit.calculate config adjustments entry.recallAnchor = .ok start ∧ start.InStep
      ∧ (∀ e : Eligibility, start.breakdowns.get? e.kind = none)
      ∧ Schemed config b.offender entry.unit (schemes inputs) start c := by
  unfold calculateUnit at h
  simp only [Answered.bind_eq_ok] at h
  obtain ⟨adjustments, happlied, start, hstart, h⟩ := h
  obtain ⟨hinStep, hnone⟩ := Sentence.inStep_of_calculate hstart
  exact ⟨adjustments, start, happlied, hstart, hinStep, hnone,
    recordSchemes_schemed (nodup_schemes inputs) hinStep h⟩

/-- **A unit has of a scheme that is asked for what the scheme gives it.** -/
theorem breakdown_of_scheme (h : b.calculateUnit config inputs entry = .ok c) {e : Eligibility}
    (he : e ∈ schemes inputs) :
    e.date? config b.offender entry.unit c = .ok (c.breakdowns.get? e.kind) := by
  obtain ⟨_, start, _, _, hinStep, hnone, hschemed⟩ := calculateUnit_eq_ok h
  rw [Eligibility.date?_congr hschemed.undated (hschemed.releaseDate?_eq hinStep)]
  exact hschemed.date?_eq he (hnone e)

/-- Parole is at the end of the adjusted days to parole, on a unit that is not recalled. -/
theorem date?_parole_of_calculateUnit (h : b.calculateUnit config inputs entry = .ok c) :
    ∃ track, entry.unit.track? = some track
      ∧ (c.date? .ped).map Date.day = if track = .recall then none else
        c.paroleDays.map fun days =>
          c.sentencedAt.day + max (wrap64 (days + c.adjustments.releaseDays) - 1) 0 := by
  obtain ⟨adjustments, start, _, hstart, hstep, _, hrun⟩ := calculateUnit_eq_ok h
  obtain ⟨track, m, htrack, hm, hdate⟩ := Sentence.date?_parole_of_calculate hstart
  obtain ⟨track', m', htrack', hm', hundated⟩ := Sentence.calculate_undated hstart
  rw [htrack] at htrack'
  cases htrack'
  rw [hm] at hm'
  cases hm'
  obtain ⟨_, hmeasured⟩ := Sentence.measure_measured hm
  -- schemes change neither the counts nor this date
  have hcounts : c.undated = m.undated := hrun.undated.trans hundated
  have hparole : c.paroleDays = m.paroleDays := (congrArg UnitCalculation.paroleDays hcounts :)
  have hsentenced : c.sentencedAt = m.sentencedAt :=
    (congrArg UnitCalculation.sentencedAt hcounts :)
  have hadjustments : c.adjustments = m.adjustments :=
    (congrArg UnitCalculation.adjustments hcounts :)
  refine ⟨track, htrack, ?_⟩
  rw [hrun.date?_of_others hstep fun e _ => by rcases e with (_ | _) | _ | _ <;> decide, hdate,
    hparole, hsentenced, hadjustments, hmeasured.adjustments_eq]

end Booking

end Custody
