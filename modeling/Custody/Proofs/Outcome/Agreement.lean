import Custody.Proofs.Outcome.Dates
import Custody.Proofs.Unit.Agreement

/-!
# Bookings of units that agree

Expiry and release after a recall are taken from units of which no breakdown is sensitive to early
release. So two bookings of which the units agree one by one agree on them as well, breakdowns
included, and on all that follows from when the sentences were passed and where they would expire.

* **`latest?_congr`**: the latest breakdown depends on those of the units alone.
* **`ofUnits_agree`**: what the bookings have in common.
-/

namespace Custody

open Custody.Calendar

namespace Outcome

variable {units units' : List UnitCalculation}

theorem latest?_congr {kinds : List DateKind} (h : List.Forall₂ (fun c c' =>
    ∀ kind ∈ kinds, c.breakdowns.get? kind = c'.breakdowns.get? kind) units units') :
    latest? kinds units = latest? kinds units' := by
  -- unit by unit the first breakdown of the kinds is the same
  have hamong : List.Forall₂ (fun c c' : UnitCalculation =>
      c.breakdownAmong? kinds = c'.breakdownAmong? kinds) units units' := by
    refine h.imp fun c c' hkinds => ?_
    unfold UnitCalculation.breakdownAmong?
    clear h
    induction kinds with
    | nil => rfl
    | cons kind kinds ih =>
      rw [List.forall_mem_cons] at hkinds
      rw [List.findSome?_cons, List.findSome?_cons, hkinds.1, ih hkinds.2]
  unfold latest?
  rw [Answered.filterMap_eq_of_forall₂ hamong]

/-! ## Breakdowns that are not sensitive to early release -/

theorem breakdown?_recordRelease {o : Outcome} {kind : DateKind} (hkind : ¬ kind.IsRelease) :
    (o.recordRelease (release? units)).breakdown? kind = o.breakdown? kind := by
  cases h : release? units with
  | none => rfl
  | some r =>
    have hne : kind ≠ r.1 := by
      rintro rfl
      exact hkind (release?_eq_some h).1
    show (o.breakdowns.insert r.1 r.2).get? kind = _
    rw [Table.get?_insert, if_neg hne]
    rfl

/-- They are those of expiry and licence, and release after a recall. -/
theorem breakdown?_ofBreakdowns (expiry : Breakdown) {kind : DateKind}
    (hkind : kind ∉ DateKind.earlyReleaseSensitive) :
    (ofBreakdowns expiry units).breakdown? kind
      = (if kind = .prrd then latest? [.prrd] units else none).or
          ((empty.recordExpiry expiry (latest? [.sled, .led] units)).breakdown? kind) := by
  have hrelease : ¬ kind.IsRelease := fun h => hkind h.mem_earlyReleaseSensitive
  rw [ofBreakdowns_eq]
  -- of the kinds that are not for early release only that after recall is among the entries
  by_cases hprrd : kind = .prrd
  · subst hprrd
    have hentry : (DateKind.prrd, latest? [.prrd] units) ∈ otherEntries expiry units := by
      simp [otherEntries]
    rw [breakdown?_recordAll_of_mem (by rw [map_fst_otherEntries]; decide) hentry,
      breakdown?_recordRelease hrelease, if_pos rfl]
  · have hnot : kind ∉ (otherEntries expiry units).map Prod.fst := by
      rw [map_fst_otherEntries]
      cases kind <;> first | decide | exact absurd (by decide) hkind | exact absurd rfl hprrd
    rw [breakdown?_recordAll_of_notMem hnot, breakdown?_recordRelease hrelease, if_neg hprrd,
      Option.none_or]

/-- **What bookings of units that agree have in common.** -/
theorem ofUnits_agree {o o' : Outcome} (hunits : List.Forall₂ UnitCalculation.Agree units units')
    (h : ofUnits units = .ok o) (h' : ofUnits units' = .ok o') :
    (∀ kind ∉ DateKind.earlyReleaseSensitive, o.breakdown? kind = o'.breakdown? kind)
      ∧ o.otherDates = o'.otherDates ∧ o.effectiveLength = o'.effectiveLength := by
  have hlatest (kinds : List DateKind) (hkinds : ∀ kind ∈ kinds,
      kind ∉ DateKind.earlyReleaseSensitive) : latest? kinds units = latest? kinds units' :=
    latest?_congr <| hunits.imp fun c c' hagree kind hkind =>
      hagree.breakdown kind (hkinds kind hkind)
  have hsentenced : units.map UnitCalculation.sentencedAt
      = units'.map UnitCalculation.sentencedAt := by
    rw [← List.forall₂_eq_eq_eq, List.forall₂_map_left_iff, List.forall₂_map_right_iff]
    exact hunits.imp fun c c' hagree => hagree.sentencedAt
  have hunadjusted : units.filterMap UnitCalculation.unadjustedExpiryDate?
      = units'.filterMap UnitCalculation.unadjustedExpiryDate? := by
    refine Answered.filterMap_eq_of_forall₂ (hunits.imp fun c c' hagree => ?_)
    unfold UnitCalculation.unadjustedExpiryDate?
    rw [hagree.breakdown .sled (by decide), hagree.breakdown .sed (by decide)]
  obtain ⟨earliest, expiry, esed, stop, hearliest, hexpiry, hesed, hstop, rfl⟩ := ofUnits_eq_ok.mp h
  obtain ⟨earliest', expiry', esed', stop', hearliest', hexpiry', hesed', hstop', rfl⟩ :=
    ofUnits_eq_ok.mp h'
  -- all that the outcomes are made of besides sensitive dates is the same
  rw [hsentenced, hearliest'] at hearliest
  rw [hlatest _ (by decide), hexpiry'] at hexpiry
  rw [hunadjusted, hesed'] at hesed
  cases hearliest
  cases hexpiry
  cases hesed
  rw [hstop'] at hstop
  cases hstop
  refine ⟨fun kind hkind => ?_, ?_, rfl⟩
  · show (ofBreakdowns expiry units).breakdown? kind = (ofBreakdowns expiry units').breakdown? kind
    rw [breakdown?_ofBreakdowns expiry hkind, breakdown?_ofBreakdowns expiry hkind,
      hlatest [.prrd] (by decide), hlatest [.sled, .led] (by decide)]
  · show (ofBreakdowns expiry units).otherDates.insert .esed esed
      = (ofBreakdowns expiry units').otherDates.insert .esed esed
    rw [otherDates_ofBreakdowns, otherDates_ofBreakdowns]

end Outcome

end Custody
