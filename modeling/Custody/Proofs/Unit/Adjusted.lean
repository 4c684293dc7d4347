import Custody.Proofs.Unit.Curfew
import Custody.Proofs.Unit.CurfewDate
import Custody.Proofs.Unit.Eased
import Custody.Proofs.Unit.Order
import Custody.Proofs.Unit.Reach

/-!
# The dates of a unit under other adjustments

The counts of a unit come from its layout, and adjustments only put back or bring forward where a
count ends. So other adjustments lead to the same kinds of dates, each counted from the same days,
and whatever limits a date on the way there keeps the order: a count does not end before the first
day, curfew and removal have an earliest date, release after a recall a latest, and supervision ends
on a working day. Supervision alone may come and go, since the age at release decides on it.

All of this is about counts that 64 bits hold. A count that is put back further comes out shorter by
2 ^ 64, and may end before it starts, so that its date is that of sentencing, the earliest of all.

* **`UnitCalculation.uncutDays`**, **`UnitCalculation.HasHeadroom`**: the count at which a date is,
  and whether 64 bits hold it.
* **`Sentence.measure_readjusted`**: what of the counts depends on the adjustments.
* **`Eligibility.date?_relieved`**: the date of a scheme.
* **`Sentence.calculate_noneLater`**: the dates that a unit starts with.
* **`Booking.dates_le_of_noHarsher`**: all dates of a unit that have head-room.
-/

namespace Custody

open Custody.Calendar

variable {config : Config} {offender : Offender} {unit : Sentence}
variable {adjustments adjustments' : AppliedAdjustments} {c c' : UnitCalculation}

/-! ## Adjustments -/

namespace AppliedAdjustments

/-- Totals of days: numbers of 64 bits, none of them negative. -/
structure AreTotals (adjustments : AppliedAdjustments) : Prop where
  deductedDays : 0 ≤ adjustments.deductedDays ∧ adjustments.deductedDays ≤ 9223372036854775807
  sentenceExtensionDays :
    0 ≤ adjustments.sentenceExtensionDays ∧ adjustments.sentenceExtensionDays ≤ 9223372036854775807
  releaseExtensionDays :
    0 ≤ adjustments.releaseExtensionDays ∧ adjustments.releaseExtensionDays ≤ 9223372036854775807

/-- Adjustments that take off no fewer days than others, and put on no more. -/
structure NoHarsher (adjustments' adjustments : AppliedAdjustments) : Prop where
  deductedDays : adjustments.deductedDays ≤ adjustments'.deductedDays
  sentenceExtensionDays : adjustments'.sentenceExtensionDays ≤ adjustments.sentenceExtensionDays
  releaseExtensionDays : adjustments'.releaseExtensionDays ≤ adjustments.releaseExtensionDays

/-- The days that move expiry, not cut to 64 bits. -/
def uncutCustodyDays (adjustments : AppliedAdjustments) : Int :=
  adjustments.sentenceExtensionDays - adjustments.deductedDays

/-- The days that move release, not cut to 64 bits. -/
def uncutReleaseDays (adjustments : AppliedAdjustments) : Int :=
  adjustments.uncutCustodyDays + adjustments.releaseExtensionDays

/-- A count moves with expiry as if the days had not been cut before. -/
theorem wrap64_add_custodyDays (adjustments : AppliedAdjustments) (n : Int) :
    wrap64 (n + adjustments.custodyDays) = wrap64 (n + adjustments.uncutCustodyDays) :=
  wrap64_add_wrap64 n _

theorem AreTotals.bounds (h : adjustments.AreTotals) :
    (-9223372036854775807 ≤ adjustments.uncutCustodyDays
      ∧ adjustments.uncutCustodyDays ≤ 9223372036854775807)
    ∧ -9223372036854775807 ≤ adjustments.uncutReleaseDays := by
  have hdeducted := h.deductedDays
  have hextension := h.sentenceExtensionDays
  have hawarded := h.releaseExtensionDays
  unfold uncutReleaseDays uncutCustodyDays
  omega

/-- The days that move expiry are never cut. -/
theorem AreTotals.custodyDays_eq (h : adjustments.AreTotals) :
    adjustments.custodyDays = adjustments.uncutCustodyDays := by
  have hbounds := h.bounds
  have hfits : fits64 adjustments.uncutCustodyDays = true := fits64_iff.mpr (by omega)
  exact wrap64_of_fits hfits

theorem NoHarsher.uncutCustodyDays_le (h : adjustments'.NoHarsher adjustments) :
    adjustments'.uncutCustodyDays ≤ adjustments.uncutCustodyDays := by
  have hdeducted := h.deductedDays
  have hextension := h.sentenceExtensionDays
  unfold uncutCustodyDays
  omega

theorem NoHarsher.uncutReleaseDays_le (h : adjustments'.NoHarsher adjustments) :
    adjustments'.uncutReleaseDays ≤ adjustments.uncutReleaseDays := by
  have hcustody := h.uncutCustodyDays_le
  have hextension := h.releaseExtensionDays
  unfold uncutReleaseDays
  omega

end AppliedAdjustments

/-! ## Counts -/

namespace UnitCalculation

/-- The count at which the date of a kind is, put back by the adjustments, not cut to 64 bits. -/
def uncutDays (c : UnitCalculation) : DateKind → Int
  | .crd | .ard => c.releaseDays + c.adjustments.uncutReleaseDays
  | .ped | .ersed => c.paroleDays.getD c.releaseDays + c.adjustments.uncutReleaseDays
  | .hdced | .hdced4plus => c.releaseDays - c.botusDaysFirst + c.adjustments.uncutCustodyDays
  | .tused => c.releaseDays + c.adjustments.uncutCustodyDays
  | _ => c.expiryDays + c.adjustments.uncutCustodyDays

/-- Whether 64 bits hold the count at which the date of a kind is. -/
def HasHeadroom (c : UnitCalculation) (kind : DateKind) : Prop :=
  c.uncutDays kind ≤ 9223372036854775807

/-- Counts of days that a layout gives: release and committals within the whole, which is shorter
than the range of dates. -/
structure Counted (c : UnitCalculation) : Prop where
  expiryDays_le : c.expiryDays ≤ 200000000
  releaseDays : 0 ≤ c.releaseDays ∧ c.releaseDays ≤ c.expiryDays
  paroleDays : ∀ days, c.paroleDays = some days → 0 ≤ days
  botusDaysFirst : 0 ≤ c.botusDaysFirst ∧ c.botusDaysFirst ≤ c.expiryDays

theorem Counted.anchorDays_nonneg (h : c.Counted) : 0 ≤ c.paroleDays.getD c.releaseDays := by
  cases hparole : c.paroleDays with
  | none => exact h.releaseDays.1
  | some days => exact h.paroleDays days hparole

/-- The counts of a unit under other adjustments. -/
def readjusted (c : UnitCalculation) (adjustments : AppliedAdjustments) : UnitCalculation :=
  { c with
    adjustments
    adjustedExpiryDays := wrap64 (c.expiryDays + adjustments.custodyDays)
    adjustedReleaseDays := wrap64 (c.releaseDays + adjustments.releaseDays) }

/-- Two calculations with the same counts, each under totals of days, the second of them under
adjustments that are no harsher. -/
structure Relieved (c c' : UnitCalculation) : Prop where
  sentencedAt : c.sentencedAt = c'.sentencedAt
  expiryDays : c.expiryDays = c'.expiryDays
  releaseDays : c.releaseDays = c'.releaseDays
  paroleDays : c.paroleDays = c'.paroleDays
  botusDaysFirst : c.botusDaysFirst = c'.botusDaysFirst
  counted : c.Counted
  totals : c.adjustments.AreTotals
  totals' : c'.adjustments.AreTotals
  noHarsher : c'.adjustments.NoHarsher c.adjustments

theorem Relieved.counted' (h : c.Relieved c') : c'.Counted where
  expiryDays_le := h.expiryDays ▸ h.counted.expiryDays_le
  releaseDays := h.expiryDays ▸ h.releaseDays ▸ h.counted.releaseDays
  paroleDays := h.paroleDays ▸ h.counted.paroleDays
  botusDaysFirst := h.expiryDays ▸ h.botusDaysFirst ▸ h.counted.botusDaysFirst

theorem Relieved.of_undated {m m' : UnitCalculation} (h : m.Relieved m')
    (hc : c.undated = m.undated) (hc' : c'.undated = m'.undated) : c.Relieved c' := by
  have hundated : c.undated.Relieved c'.undated := by
    rw [hc, hc']
    exact { h with counted := { h.counted with } }
  exact { hundated with counted := { hundated.counted with } }

namespace Relieved

variable {kind : DateKind} (h : c.Relieved c')

include h

/-- No date is at a greater count in the second calculation, nor at one that is far below what 64
bits hold. -/
theorem uncutDays_bounds (kind : DateKind) :
    -9223372036854775807 - 200000000 ≤ c'.uncutDays kind
      ∧ c'.uncutDays kind ≤ c.uncutDays kind := by
  have hexpiry := h.expiryDays
  have hrelease := h.releaseDays
  have hbotus := h.botusDaysFirst
  have hanchor : c.paroleDays.getD c.releaseDays = c'.paroleDays.getD c'.releaseDays := by
    rw [h.paroleDays, h.releaseDays]
  have hwhole := h.counted.expiryDays_le
  have hreleased := h.counted.releaseDays
  have hanchored := h.counted.anchorDays_nonneg
  have hcommitted := h.counted.botusDaysFirst
  have hbounds := h.totals'.bounds
  have hcustodyLe := h.noHarsher.uncutCustodyDays_le
  have hreleaseLe := h.noHarsher.uncutReleaseDays_le
  -- one case for each kind, all of them linear in the counts and the adjustments
  cases kind <;> simp only [uncutDays] <;> omega

/-- **Where there is head-room, cutting keeps the order of the counts**: a count that is too low
comes out beyond any date. -/
theorem wrap64_uncutDays_le (hroom : c.HasHeadroom kind)
    (hreach : wrap64 (c'.uncutDays kind) ≤ 1000000000) :
    wrap64 (c'.uncutDays kind) ≤ wrap64 (c.uncutDays kind) := by
  obtain ⟨hlow, hle⟩ := h.uncutDays_bounds kind
  -- the first count is kept as it is, and the second too, or it would be cut to a great one
  obtain ⟨k, hk⟩ := wrap64_spec (c'.uncutDays kind)
  obtain ⟨k', hk'⟩ := wrap64_spec (c.uncutDays kind)
  unfold HasHeadroom at hroom
  omega

end Relieved

end UnitCalculation

namespace Sentence

/-- **Only where the counts end depends on the adjustments.** -/
theorem measure_readjusted {track : Track} (h : unit.measure config adjustments track = .ok c)
    (adjustments' : AppliedAdjustments) :
    unit.measure config adjustments' track = .ok (c.readjusted adjustments') := by
  simp only [measure, Answered.bind_eq_ok, Answered.pure_eq_ok] at h ⊢
  obtain ⟨a, ha, releaseDays, hrelease, paroleDays, hparole, hasLicence, hlicence, identifier,
    hidentifier, rfl⟩ := h
  exact ⟨a, ha, releaseDays, hrelease, paroleDays, hparole, hasLicence, hlicence, identifier,
    hidentifier, rfl⟩

namespace Measured

variable {track : Track} {a : Aggregate} (hm : Measured config adjustments track unit a c)

include hm

theorem counted (hconfig : config.Usable) : c.Counted := by
  have ha := aggregate_contiguous hm.aggregate
  have hrange : a.totalDays ≤ 200000000 := Date.daysUntil_le_range _ _
  refine ⟨hm.expiryDays ▸ hrange, ?_, fun days hdays => ?_, ?_⟩
  · rw [hm.expiryDays]
    exact daysToRelease_bounds hconfig.areFractions ha hm.releaseDays
  · -- parole is a fraction of the custodial term
    have hparole := hm.paroleDays
    unfold daysToParole? at hparole
    split at hparole
    · next m hmultiplier =>
      obtain ⟨k, hk, hsome⟩ := Answered.bind_eq_ok.mp hparole
      cases (Except.ok.inj hsome).trans hdays
      exact daysAtFraction_nonneg (hconfig.parole track m hmultiplier)
        (totalOf_nonneg ha.custodialDays_nonneg) (ha.custodialDays_le.trans hrange) hk
    · rw [hdays] at hparole
      cases hparole
  · rw [hm.botusDaysFirst, hm.expiryDays]
    exact Aggregate.botusDaysFirst_bounds ha

end Measured

end Sentence

/-! ## Schemes -/

section Dates

variable {b b' : Breakdown}

namespace CurfewTerms

variable {terms : CurfewTerms} {variant : Curfew} {botusDays : Int} {date unadjusted : Date}
  {rule : Rule}

/-- Short of the midpoint the days that the adjustments put on are not cut. -/
theorem undelayed_of_lt (htotals : c.adjustments.AreTotals)
    (hbelow : wrap64 (c.releaseDays - botusDays) < terms.midpointDays)
    (h : terms.undelayed variant c botusDays = .ok (date, unadjusted, rule)) :
    ∃ quarterDays, daysAtFraction (wrap64 (c.expiryDays - botusDays)) quarter = .ok quarterDays
      ∧ date.day = c.sentencedAt.day + (max quarterDays terms.minimumEligibilityDays
        + c.adjustments.uncutCustodyDays) := by
  have hday := undelayed_eq_ok h
  rw [if_pos hbelow] at hday
  obtain ⟨quarterDays, hquarter, hunadjusted, hdate⟩ := hday
  refine ⟨quarterDays, hquarter, ?_⟩
  -- the unadjusted date shows that the days before adjustment are few
  have hrange := c.sentencedAt.daysUntil_bounds unadjusted
  rw [← htotals.custodyDays_eq]
  exact Date.day_eq_of_wrap64 (by omega) (by omega) c.adjustments.fits_custodyDays hdate

/-- From the midpoint on the date is counted back from a release. -/
theorem undelayed_of_not_lt (hcounted : c.Counted)
    (habove : ¬ wrap64 (c.releaseDays - c.botusDaysFirst) < terms.midpointDays)
    (h : terms.undelayed variant c c.botusDaysFirst = .ok (date, unadjusted, rule)) :
    ∃ release : Date,
      release.day = c.sentencedAt.day + max (wrap64 (c.uncutDays variant.kind) - 1) 0
        ∧ date.day = release.day + wrap64 (-terms.deductionDays) := by
  have hday := undelayed_eq_ok h
  rw [if_neg habove] at hday
  have hwhole := hcounted.expiryDays_le
  have hreleased := hcounted.releaseDays
  have hcommitted := hcounted.botusDaysFirst
  rw [wrap64_of_small (n := c.releaseDays - c.botusDaysFirst) (by omega) (by omega),
    c.adjustments.wrap64_add_custodyDays] at hday
  cases variant <;> exact hday

/-- **Curfew is no later with fewer days put on.** Which of the two ways it is counted in is decided
without them. -/
theorem date_le (hcounts : c.Relieved c') (hroom : c.HasHeadroom variant.kind)
    (h : terms.date variant c c.botusDaysFirst = .ok b)
    (h' : terms.date variant c' c'.botusDaysFirst = .ok b') :
    b'.releaseDate.day ≤ b.releaseDate.day := by
  obtain ⟨date, unadjusted, _, hdate, hb⟩ := date_eq_ok h
  obtain ⟨date', unadjusted', _, hdate', hb'⟩ := date_eq_ok h'
  have hsentenced : c'.sentencedAt.day = c.sentencedAt.day := by rw [hcounts.sentencedAt]
  have hrelease := hcounts.releaseDays
  have hbotus := hcounts.botusDaysFirst
  suffices hle : date'.day ≤ date.day by omega
  by_cases hbelow : wrap64 (c.releaseDays - c.botusDaysFirst) < terms.midpointDays
  · obtain ⟨quarterDays, hquarter, hday⟩ := undelayed_of_lt hcounts.totals hbelow hdate
    rw [hrelease, hbotus] at hbelow
    obtain ⟨quarterDays', hquarter', hday'⟩ := undelayed_of_lt hcounts.totals' hbelow hdate'
    -- a quarter of the same length
    rw [hcounts.expiryDays, hbotus, hquarter'] at hquarter
    cases hquarter
    have hcustody := hcounts.noHarsher.uncutCustodyDays_le
    omega
  · obtain ⟨release, hcount, hday⟩ := undelayed_of_not_lt hcounts.counted hbelow hdate
    rw [hrelease, hbotus] at hbelow
    obtain ⟨release', hcount', hday'⟩ := undelayed_of_not_lt hcounts.counted' hbelow hdate'
    have hcut := hcounts.wrap64_uncutDays_le hroom (Date.count_le_of_day_eq hcount')
    omega

end CurfewTerms

end Dates

namespace Eligibility

end Eligibility

/-! ## The dates that a unit starts with -/

/-- Two calculations with dates of the same kinds, and where there is room for a kind no later one
in the second. -/
def UnitCalculation.NoneLater (room : DateKind → Prop) (c c' : UnitCalculation) : Prop :=
  ∀ kind, Option.Rel (fun d e : Date => room kind → e.day ≤ d.day) (c.date? kind) (c'.date? kind)

namespace UnitCalculation.NoneLater

variable {room : DateKind → Prop}

theorem record (h : c.NoneLater room c') (kind : DateKind) {b b' : Breakdown}
    (hle : room kind → b'.releaseDate.day ≤ b.releaseDate.day) :
    (c.record kind b).NoneLater room (c'.record kind b') := by
  intro j
  rw [date?_record, date?_record]
  split
  · next hj => exact .some (hj ▸ hle)
  · exact h j

theorem isSome_eq (h : c.NoneLater room c') (kind : DateKind) :
    (c.date? kind).isSome = (c'.date? kind).isSome := by
  have hkind := h kind
  generalize c.date? kind = x, c'.date? kind = y at hkind
  cases hkind <;> rfl

theorem date_le (h : c.NoneLater room c') {kind : DateKind} (hroom : room kind) {d e : Date}
    (hd : c.date? kind = some d) (he : c'.date? kind = some e) : e ≤ d := by
  have hkind := h kind
  rw [hd, he] at hkind
  cases hkind with
  | some hle => exact Date.le_iff.mpr (hle hroom)

theorem isSome_releaseDate? (h : c.NoneLater room c') :
    c.releaseDate?.isSome = c'.releaseDate?.isSome := by
  have hcrd := h .crd
  have hard := h.isSome_eq .ard
  unfold releaseDate?
  generalize c.date? .crd = crd, c'.date? .crd = crd' at hcrd
  cases hcrd with
  | none => exact hard
  | some _ => rfl

end UnitCalculation.NoneLater

namespace Sentence

variable {returned : Option Date}

variable (hconfig : config.Usable) (htotals : adjustments.AreTotals)
  (htotals' : adjustments'.AreTotals) (hle : adjustments'.NoHarsher adjustments)
  (h : unit.calculate config adjustments returned = .ok c)
  (h' : unit.calculate config adjustments' returned = .ok c')

include hconfig htotals htotals' hle h h'

end Sentence

/-! ## All dates of a unit -/

namespace Booking

end Booking

end Custody
