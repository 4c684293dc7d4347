import Custody.Proofs.Calendar.Period
import Custody.Proofs.Unit.Curfew
import Custody.Proofs.Unit.Reach

/-!
# The date of curfew of a single sentence

Of a standard determinate sentence of so many days, the date of curfew is reckoned from two counts:
a quarter of the days, and the days to release. The count of days to release decides which of the
two it is. On the standard track, of which half is served, the two agree where one takes over from
the other, so a longer sentence never has an earlier date. On the early release track two fifths are
served: from 898 days on, release is past the midpoint, and a fixed deduction from it is up to 45
days short of a quarter. There a longer sentence can have the earlier date.

* **`Sentence.Measured.of_standard`**: the counts of a sentence of so many days.
* **`EnglandAndWales.curfew_reversed_iff`**: when a longer sentence has the earlier date of curfew.
-/

namespace Custody

open Custody.Calendar

/-! ## Shares of days -/

theorem CurfewTerms.value_quarter : quarter.value = 1 / 4 := by
  decide +kernel

/-- The whole days that a fraction of a number of days takes up, as a division of whole numbers. -/
theorem ceil_mul_of_eq_div {fraction : ℚ} {p q : Nat} (h : fraction = p / q) (n : Nat) :
    ⌈(n : ℚ) * fraction⌉ = -(-(p * n : Int) / q) := by
  have hceil := Rat.ceil_intCast_div_natCast (p * n) q
  push_cast at hceil
  rwa [mul_comm (p : ℚ), mul_div_assoc, ← h] at hceil

namespace EnglandAndWales

theorem fraction_sdsStandard : releasePoints.fraction .sdsStandard = 1 / 2 := by
  decide +kernel

theorem fraction_sdsEarly : releasePoints.fraction .sdsEarly = 2 / 5 := by
  decide +kernel

end EnglandAndWales

/-! ## The counts of a single sentence -/

namespace Sentence

variable {config : Config} {adjustments : AppliedAdjustments} {s : Single} {track : Track}

/-- A single sentence is laid out as one part. -/
theorem aggregate_single {a : Aggregate} (h : (single s).aggregate = .ok a) :
    ∃ ends, s.term.ends s.sentencedAt = .ok ends ∧ a.sentencedAt = s.sentencedAt
      ∧ a.finish = ends.2
      ∧ a.parts = [⟨s.identifier, s.track, s.sentencedAt, ends.1, ends.2⟩] := by
  obtain ⟨hsentenced, hlaid⟩ := aggregate_eq_ok.mp h
  have hdate : a.sentencedAt = s.sentencedAt := (Option.some.inj hsentenced).symm
  rw [hdate] at hlaid
  obtain ⟨_, part, laid, hsingle, hpart, hrest, hall⟩ := layOut_cons_eq_ok.mp hlaid
  cases hsingle
  obtain ⟨ends, hends, rfl⟩ := Single.servedFrom_eq_ok.mp hpart
  cases hrest
  rw [Prod.mk.injEq] at hall
  exact ⟨ends, hends, hdate, hall.2, hall.1⟩

/-- No committals are served before the only part. -/
theorem botusDaysFirst_singleton {a : Aggregate} {p : Part} (h : a.parts = [p]) :
    a.botusDaysFirst = 0 := by
  rw [Aggregate.botusDaysFirst, h]
  cases hsds : Aggregate.isSdsPart p <;> simp [hsds]

/-- **The counts of a standard determinate sentence of so many days.** -/
theorem Measured.of_standard {a : Aggregate} {m : UnitCalculation} {t : StandardTerm} {n : Nat}
    (hpoints : config.releasePoints.AreShort) (hrecall : track ≠ .recall)
    (hterm : s.term = .standard t) (hdays : t.duration.IsDays n) (htrack : s.track = some track)
    (hm : Measured config adjustments track (single s) a m) :
    m.sentencedAt = s.sentencedAt ∧ m.expiryDays = n ∧ m.botusDaysFirst = 0
      ∧ m.releaseDays = ⌈(n : ℚ) * config.releasePoints.fraction track⌉ := by
  obtain ⟨ends, hends, hsentenced, hfinish, hparts⟩ := aggregate_single hm.aggregate
  rw [hterm] at hends
  simp only [Term.ends, Answered.bind_eq_ok, Answered.pure_eq_ok] at hends
  obtain ⟨finish, hfinishes, rfl⟩ := hends
  -- a duration of days is as long from any date
  have hlength : s.sentencedAt.daysUntil finish = n := by
    have hday := hdays.day_of_endDate hfinishes
    unfold Date.daysUntil
    omega
  refine ⟨hm.sentencedAt.trans hsentenced, ?_, ?_, ?_⟩
  · rw [hm.expiryDays, Aggregate.totalDays, hsentenced, hfinish, hlength]
  · rw [hm.botusDaysFirst, botusDaysFirst_singleton hparts]
  · have hrelease := daysToRelease_cases hpoints (aggregate_contiguous hm.aggregate) hm.releaseDays
    simp only [hrecall, false_and, ne_eq, not_false_eq_true, true_and, false_or] at hrelease
    rw [hrelease, hparts, List.map_singleton, List.sum_singleton, ReleasePoints.share, htrack,
      Option.map_some, Option.getD_some, Part.custodialDays, hlength]
    rfl

end Sentence

/-! ## The date -/

/-- The days from sentencing to the date of curfew where no committals are served first, from those
to release and a quarter of the whole. -/
def CurfewTerms.daysToCurfew (terms : CurfewTerms) (releaseDays quarterDays custodyDays : Int) :
    Int :=
  max (if releaseDays < terms.midpointDays then
      max quarterDays terms.minimumEligibilityDays + custodyDays
    else max (wrap64 (releaseDays + custodyDays) - 1) 0 + wrap64 (-terms.deductionDays))
    terms.minimumCustodialDays

namespace Sentence

variable {config : Config} {offender : Offender} {adjustments : AppliedAdjustments}
variable {returned : Option Date}

/-- A unit that is calculated is given curfew below four years, on a date. -/
def HasCurfewOn (config : Config) (offender : Offender) (adjustments : AppliedAdjustments)
    (returned : Option Date) (unit : Sentence) (d : Date) : Prop :=
  ∃ start c, unit.calculate config adjustments returned = .ok start
    ∧ (Eligibility.curfew .hdced).apply config offender unit start = .ok (c, true)
    ∧ c.date? .hdced = some d

/-- The date is that of the scheme, on tracks that it is given on. -/
theorem HasCurfewOn.date_eq_ok {unit : Sentence} {d : Date}
    (h : unit.HasCurfewOn config offender adjustments returned d) :
    ∃ start b, unit.calculate config adjustments returned = .ok start
      ∧ config.hdced.allowsTracks unit.componentTracks = true
      ∧ config.hdced.date .hdced start start.botusDaysFirst = .ok b ∧ b.releaseDate = d := by
  obtain ⟨start, c, hstart, happly, hd⟩ := h
  obtain ⟨found, hfound, heq⟩ := Eligibility.apply_eq_ok_iff.mp happly
  rw [Prod.mk.injEq] at heq
  obtain ⟨rfl, hsome⟩ := heq
  obtain ⟨b, rfl⟩ := Option.isSome_iff_exists.mp hsome.symm
  obtain ⟨happlies, hdate⟩ := Eligibility.date?_eq_ok hfound
  -- the date that is found there is the one that was recorded
  have hrecorded : (start.record .hdced b).date? .hdced = some d := hd
  rw [UnitCalculation.date?_record, if_pos rfl] at hrecorded
  exact ⟨start, b, hstart, CurfewTerms.allowsTracks_of_applies happlies, hdate b rfl,
    Option.some.inj hrecorded⟩

/-- **The date of curfew of a standard determinate sentence of so many days.** From the midpoint on
it is counted back from a release that is in the range. -/
theorem HasCurfewOn.day_eq {s : Single} {t : StandardTerm} {track : Track} {n : Nat} {d : Date}
    (hpoints : config.releasePoints.AreShort) (hrecall : track ≠ .recall)
    (hterm : s.term = .standard t) (hdays : t.duration.IsDays n) (htrack : s.track = some track)
    (h : (single s).HasCurfewOn config offender adjustments returned d) :
    (n : Int) ≤ 200000000
      ∧ d.day = s.sentencedAt.day + config.hdced.daysToCurfew
        ⌈(n : ℚ) * config.releasePoints.fraction track⌉
        ⌈(n : ℚ) * CurfewTerms.quarter.value⌉ adjustments.custodyDays
      ∧ (config.hdced.midpointDays ≤ ⌈(n : ℚ) * config.releasePoints.fraction track⌉ →
        wrap64 (⌈(n : ℚ) * config.releasePoints.fraction track⌉ + adjustments.custodyDays)
          ≤ 1000000000) := by
  obtain ⟨c, b, hc, _, hdate, rfl⟩ := h.date_eq_ok
  obtain ⟨track', a, m, htrack', hm, hdated, _⟩ := calculate_dated hc
  cases htrack.symm.trans htrack'
  obtain ⟨hsentenced, hexpiry, hbotus, hrelease⟩ :=
    hm.of_standard hpoints hrecall hterm hdays htrack
  have hstart : c.sentencedAt = s.sentencedAt :=
    (congrArg (·.sentencedAt) hdated.undated).trans hsentenced
  have hlength : c.expiryDays = n := (congrArg (·.expiryDays) hdated.undated).trans hexpiry
  have hfirst : c.botusDaysFirst = 0 := (congrArg (·.botusDaysFirst) hdated.undated).trans hbotus
  have hserved : c.releaseDays = ⌈(n : ℚ) * config.releasePoints.fraction track⌉ :=
    (congrArg (·.releaseDays) hdated.undated).trans hrelease
  have hadjusted : c.adjustments = adjustments :=
    (congrArg (·.adjustments) hdated.undated).trans hm.adjustments_eq
  have hroom : (n : Int) ≤ 200000000 := by
    rw [← hexpiry, hm.expiryDays]
    exact Date.daysUntil_le_range _ _
  have hbounds := daysToRelease_bounds hpoints.areFractions (aggregate_contiguous hm.aggregate)
    hm.releaseDays
  rw [hrelease, ← hm.expiryDays, hexpiry] at hbounds
  obtain ⟨date, unadjusted, _, hundelayed, hday⟩ := CurfewTerms.date_eq_ok hdate
  have hplaced := CurfewTerms.undelayed_eq_ok hundelayed
  rw [hfirst, Int.sub_zero, Int.sub_zero, hserved, hlength, hstart, hadjusted,
    wrap64_of_small (n := (n : Int)) (by omega) (by omega),
    wrap64_of_small (n := ⌈(n : ℚ) * config.releasePoints.fraction track⌉) (by omega)
      (by omega)] at hplaced
  refine ⟨hroom, ?_⟩
  rw [hday, hfirst, hstart, CurfewTerms.daysToCurfew]
  split at hplaced
  · next hbelow =>
    obtain ⟨quarterDays, hquarter, hunadjusted, hplaced⟩ := hplaced
    -- a quarter of so few days is exact, and so is its sum with the adjustments
    have hvalue := (value_share CurfewTerms.quarter_isShare (Int.natCast_nonneg n) (by omega)).1
    have hrange := s.sentencedAt.daysUntil_bounds unadjusted
    have hexact := Date.day_eq_of_wrap64 (by omega) (by omega) adjustments.fits_custodyDays hplaced
    rw [ceilDays_eq_ok hquarter, hvalue, Int.cast_natCast] at hexact
    rw [if_pos hbelow]
    omega
  · next habove =>
    obtain ⟨release, hreleased, hplaced⟩ := hplaced
    have hreach := Date.count_le_of_day_eq hreleased
    rw [if_neg habove]
    omega

end Sentence

/-- Adjustments that leave the smaller of two counts in the range of dates leave their order, and
adjustments of few days are added to the greater as they are. -/
theorem AppliedAdjustments.wrap64_add_custodyDays_cases (adjustments : AppliedAdjustments)
    {m n : Int} (hnonneg : 0 ≤ m) (hle : m ≤ n) (hroom : n ≤ 200000000) :
    (wrap64 (m + adjustments.custodyDays) ≤ 1000000000 →
      wrap64 (m + adjustments.custodyDays) ≤ wrap64 (n + adjustments.custodyDays))
    ∧ (adjustments.custodyDays ≤ 1000000000 →
      wrap64 (n + adjustments.custodyDays) = n + adjustments.custodyDays) := by
  have hfits := fits64_iff.mp adjustments.fits_custodyDays
  constructor
  · intro hreach
    exact wrap64_le_wrap64 hreach (by omega) (by omega)
  · intro hfew
    exact wrap64_of_fits (fits64_iff.mpr ⟨by omega, by omega⟩)

/-- The standard determinate sentence of a duration, otherwise the same. -/
def Single.lasting (s : Single) (t : StandardTerm) (duration : Duration) : Single :=
  { s with term := .standard { t with duration } }

/-! ## England and Wales -/

namespace EnglandAndWales

/-- Curfew below four years is given on the tracks of standard and early release. -/
theorem track_of_hasCurfewOn {s : Single} {track : Track} {offender : Offender}
    {adjustments : AppliedAdjustments} {returned : Option Date} {d : Date}
    (htrack : s.track = some track)
    (h : (Sentence.single s).HasCurfewOn config offender adjustments returned d) :
    track = .sdsStandard ∨ track = .sdsEarly := by
  obtain ⟨_, _, _, hallowed, _⟩ := h.date_eq_ok
  have htracks : (Sentence.single s).componentTracks = [track] := by
    rw [Sentence.componentTracks, Sentence.components,
      List.filterMap_cons_some (show (Sentence.single s).track? = some track from htrack),
      List.filterMap_nil]
  rw [htracks] at hallowed
  revert hallowed
  cases track <;> decide

/-- **A longer sentence has the earlier date of curfew** exactly when it is on the early release
track, the two are on either side of the midpoint, its days to release less the deduction do not
make up for a quarter of the shorter one, and the shorter one is not at the minimum. -/
theorem curfew_reversed_iff {s : Single} {t : StandardTerm} {short long : Duration} {n₁ n₂ : Nat}
    {track : Track} {offender : Offender} {adjustments : AppliedAdjustments}
    {returned : Option Date} {x y : Date}
    (hshort : short.IsDays n₁) (hlong : long.IsDays n₂) (hle : n₁ ≤ n₂)
    (htrack : s.track = some track)
    (hx : (Sentence.single (s.lasting t short)).HasCurfewOn config offender adjustments returned x)
    (hy : (Sentence.single (s.lasting t long)).HasCurfewOn config offender adjustments returned y) :
    y < x ↔ track = .sdsEarly ∧ n₁ ≤ 897 ∧ 898 ≤ n₂
      ∧ ⌈(n₂ : ℚ) * (2 / 5)⌉ < ⌈(n₁ : ℚ) * (1 / 4)⌉ + 180
      ∧ 14 < ⌈(n₁ : ℚ) * (1 / 4)⌉ + adjustments.custodyDays := by
  have hgiven : track = .sdsStandard ∨ track = .sdsEarly :=
    track_of_hasCurfewOn (s := s.lasting t short) htrack hx
  have hrecall : track ≠ .recall := by
    rcases hgiven with rfl | rfl <;> decide
  have hxday := Sentence.HasCurfewOn.day_eq (s := s.lasting t short) releasePoints_areShort
    hrecall rfl hshort htrack hx
  have hyday := Sentence.HasCurfewOn.day_eq (s := s.lasting t long) releasePoints_areShort
    hrecall rfl hlong htrack hy
  have hstart (duration : Duration) : (s.lasting t duration).sentencedAt = s.sentencedAt := rfl
  have hterms : config.hdced.midpointDays = 360 ∧ config.hdced.deductionDays = 179
      ∧ config.hdced.minimumEligibilityDays = 28 ∧ config.hdced.minimumCustodialDays = 14 :=
    ⟨rfl, rfl, rfl, rfl⟩
  obtain ⟨hmidpoint, hdeduction, heligibility, hminimum⟩ := hterms
  have hquarter (n : Nat) : ⌈(n : ℚ) * (1 / 4)⌉ = -(-(1 * n : Int) / 4) :=
    ceil_mul_of_eq_div (by norm_num) n
  have hfifths (n : Nat) : ⌈(n : ℚ) * (2 / 5)⌉ = -(-(2 * n : Int) / 5) :=
    ceil_mul_of_eq_div (by norm_num) n
  have hhalf (n : Nat) : ⌈(n : ℚ) * (1 / 2)⌉ = -(-(1 * n : Int) / 2) :=
    ceil_mul_of_eq_div (by norm_num) n
  rw [hstart, CurfewTerms.value_quarter, hquarter, CurfewTerms.daysToCurfew, hmidpoint,
    hdeduction, heligibility, hminimum, wrap64_of_small (n := -179) (by omega) (by omega)]
    at hxday hyday
  rw [Date.lt_iff, hfifths, hquarter]
  have hrange := s.sentencedAt.daysUntil_bounds x
  rcases hgiven with rfl | rfl
  · have hfraction : config.releasePoints.fraction .sdsStandard = 1 / 2 := fraction_sdsStandard
    rw [hfraction, hhalf] at hxday hyday
    -- both from a quarter, both from release, or the shorter from a quarter
    obtain ⟨horder, hexact⟩ := adjustments.wrap64_add_custodyDays_cases
      (m := -(-(1 * n₁ : Int) / 2)) (n := -(-(1 * n₂ : Int) / 2)) (by omega) (by omega) (by omega)
    simp only [reduceCtorEq, false_and, iff_false]
    split at hxday <;> split at hyday <;> omega
  · have hfraction : config.releasePoints.fraction .sdsEarly = 2 / 5 := fraction_sdsEarly
    rw [hfraction, hfifths] at hxday hyday
    obtain ⟨horder, hexact⟩ := adjustments.wrap64_add_custodyDays_cases
      (m := -(-(2 * n₁ : Int) / 5)) (n := -(-(2 * n₂ : Int) / 5)) (by omega) (by omega) (by omega)
    simp only [true_and]
    split at hxday <;> split at hyday <;> omega

/-- A standard determinate sentence of some days of the early release scheme, passed on
3 April 2024. -/
def onEarlyRelease (days : UInt32) : Single :=
  Single.lasting
    { identifier := ⟨.replicate 32 ⟨1, by decide⟩⟩
      caseSequence := 1
      lineSequence := 1
      sentencedAt := on 2024 4 3
      offence := { committedAt := on 2023 5 9, code := "TH68010", marks := {} }
      recallType := .notRecalled
      consecutiveTo := none
      track := some .sdsEarly
      term := .botus .zero }
    { duration := .zero, isSdsPlus := false, isSection250 := false, exclusion := .notExcluded }
    (Duration.of .days days)

/-- Nobody in particular. -/
def someone : Offender := ⟨"A1234BC", none, false⟩

/-- Of 897 days the date is a quarter, of 898 the deduction before release. -/
theorem hasCurfewOn_onEarlyRelease :
    (Sentence.single (onEarlyRelease 897)).HasCurfewOn config someone {} none (on 2024 11 14)
      ∧ (Sentence.single (onEarlyRelease 898)).HasCurfewOn config someone {} none
        (on 2024 9 30) := by
  have hrun (days : UInt32) (d : Date)
      (heval : (do
        let unit := Sentence.single (onEarlyRelease days)
        let start ← unit.calculate config {} none
        let r ← (Eligibility.curfew .hdced).apply config someone unit start
        return (r.1.date? .hdced, r.2) : Answered (Option Date × Bool)) = .ok (some d, true)) :
      (Sentence.single (onEarlyRelease days)).HasCurfewOn config someone {} none d := by
    simp only [Answered.bind_eq_ok, Answered.pure_eq_ok, Prod.mk.injEq] at heval
    obtain ⟨start, hstart, ⟨c, recorded⟩, happly, hdate, rfl⟩ := heval
    exact ⟨start, c, hstart, happly, hdate⟩
  exact ⟨hrun 897 _ (by decide +kernel), hrun 898 _ (by decide +kernel)⟩

/-- With one day more, curfew is 45 days earlier. -/
theorem curfew_reversed_iff_onEarlyRelease :
    (Duration.of .days 897).IsDays 897 ∧ (Duration.of .days 898).IsDays 898
      ∧ (Sentence.single (onEarlyRelease 897)).HasCurfewOn config someone {} none (on 2024 11 14)
      ∧ (Sentence.single (onEarlyRelease 898)).HasCurfewOn config someone {} none (on 2024 9 30)
      ∧ on 2024 9 30 < on 2024 11 14 := by
  have hshort : (Duration.of .days 897).IsDays 897 := Duration.isDays_of 897
  have hlong : (Duration.of .days 898).IsDays 898 := Duration.isDays_of 898
  obtain ⟨hx, hy⟩ := hasCurfewOn_onEarlyRelease
  refine ⟨hshort, hlong, hx, hy, (curfew_reversed_iff hshort hlong (by decide) rfl hx hy).mpr ?_⟩
  rw [ceil_mul_of_eq_div (p := 2) (q := 5) (by norm_num),
    ceil_mul_of_eq_div (p := 1) (q := 4) (by norm_num)]
  decide

/-- It is not so that a longer sentence never has an earlier date of curfew. -/
theorem not_curfew_le_of_le : ¬ ∀ (s : Single) (t : StandardTerm) (short long : Duration)
    (n₁ n₂ : Nat) (track : Track) (offender : Offender) (adjustments : AppliedAdjustments)
    (returned : Option Date) (x y : Date), short.IsDays n₁ → long.IsDays n₂ → n₁ ≤ n₂ →
    s.track = some track →
    (Sentence.single (s.lasting t short)).HasCurfewOn config offender adjustments returned x →
    (Sentence.single (s.lasting t long)).HasCurfewOn config offender adjustments returned y →
    x ≤ y := by
  intro h
  obtain ⟨hx, hy⟩ := hasCurfewOn_onEarlyRelease
  have hle : on 2024 11 14 ≤ on 2024 9 30 := h _ _ _ _ 897 898 .sdsEarly _ _ _ _ _
    (Duration.isDays_of 897) (Duration.isDays_of 898) (by decide) rfl hx hy
  revert hle
  decide

end EnglandAndWales

end Custody
