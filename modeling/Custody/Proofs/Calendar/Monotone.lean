import Custody.Proofs.Calendar.WholeMonths
import Custody.Sentence.Classification

/-!
# The order that advancing keeps

A duration that counts no unit more often than another leads no further. It leads strictly less far
once a count differs, although either of the steps in months may lead from two dates to the same end
of a month: the two steps together lead as many months on as there are in all. So a duration with
fewer months stops in an earlier month, and one with as many of each kind at the same date, from
which weeks and days are exact.

* **`Duration.advance?_eq_some_iff`**: the walk in months and then in days.
* **`Duration.month_of_afterMonths?`**: the month in which the days begin.
* **`Duration.endDate_lt`**: counting more leads further.
* **`Duration.lengthInDays_eq_zero_iff`**: only a duration of nothing has no length.
* **`Duration.atLeastYears_mono`**: what is at least so many years is so with more of any unit.
* **`Duration.endDate_monotone`**: advancing keeps the order of dates and of durations.
-/

namespace Custody

open Custody.Calendar

namespace Duration

variable {d e : Duration} {anchor reached stop : Date}

/-! ## Months first, days after -/

/-- Where the years and months of a duration lead, before its weeks and days are counted. -/
def afterMonths? (d : Duration) (anchor : Date) : Option Date := do
  let date ← anchor.addMonths? (12 * (d.count .years).toNat)
  date.addMonths? (d.count .months).toNat

/-- The weeks and days of a duration, seven days to a week. -/
def daysInAll (d : Duration) : Nat :=
  7 * (d.count .weeks).toNat + (d.count .days).toNat

/-- **The walk in months and then in days.** The weeks alone stay in the range if the days do. -/
theorem advance?_eq_some_iff : d.advance? anchor = some stop
    ↔ ∃ reached, d.afterMonths? anchor = some reached
      ∧ stop.day = reached.day + d.daysInAll := by
  simp only [advance?, afterMonths?, daysInAll, Option.bind_eq_bind, Option.bind_eq_some_iff,
    Date.addDays?_eq_some]
  constructor
  · rintro ⟨years, hyears, reached, hmonths, weeks, hweeks, hdays⟩
    exact ⟨reached, ⟨years, hyears, hmonths⟩, by omega⟩
  · rintro ⟨reached, ⟨years, hyears, hmonths⟩, hday⟩
    have hfirst := reached.firstDay_le
    have hlast := stop.le_lastDay
    exact ⟨years, hyears, reached, hmonths,
      ⟨reached.day + 7 * (d.count .weeks).toNat, by omega, by omega⟩, rfl, by simp only; omega⟩

/-- The day of the month may be cut off twice on the way, but no month is lost. -/
theorem month_of_afterMonths? (h : d.afterMonths? anchor = some reached) :
    reached.month = anchor.month + d.monthsInAll := by
  obtain ⟨years, hyears, hmonths⟩ := Option.bind_eq_some_iff.mp h
  have hmonth := (Date.month_of_addMonths? hyears).1
  have hmonth' := (Date.month_of_addMonths? hmonths).1
  unfold monthsInAll
  omega

theorem afterMonths?_congr (hyears : d.count .years = e.count .years)
    (hmonths : d.count .months = e.count .months) :
    d.afterMonths? anchor = e.afterMonths? anchor := by
  unfold afterMonths?
  rw [hyears, hmonths]

/-! ## Counting more -/

theorem CountsAtMost.daysInAll_le (hcounts : d.CountsAtMost e) : d.daysInAll ≤ e.daysInAll := by
  have hweeks := hcounts.toNat_le .weeks
  have hdays := hcounts.toNat_le .days
  unfold daysInAll
  omega

/-- Where a count differs there are more months in all, or as many of each kind and more days. -/
theorem CountsAtMost.lt_of_ne (hcounts : d.CountsAtMost e) (hne : ∃ u, d.count u ≠ e.count u) :
    d.monthsInAll < e.monthsInAll
      ∨ d.count .years = e.count .years ∧ d.count .months = e.count .months
        ∧ d.daysInAll < e.daysInAll := by
  have hyears := hcounts.toNat_le .years
  have hmonths := hcounts.toNat_le .months
  have hweeks := hcounts.toNat_le .weeks
  have hdays := hcounts.toNat_le .days
  unfold monthsInAll daysInAll
  obtain ⟨u, hu⟩ := hne
  rw [Ne, ← UInt32.toNat_inj] at hu
  rw [← UInt32.toNat_inj, ← UInt32.toNat_inj]
  cases u <;> omega

/-- **Counting more leads further.** -/
theorem endDate_lt (hcounts : d.CountsAtMost e) (hne : ∃ u, d.count u ≠ e.count u)
    (hd : d.endDate anchor = .ok reached) (he : e.endDate anchor = .ok stop) :
    reached.day < stop.day := by
  obtain ⟨start, hstart, hday⟩ := advance?_eq_some_iff.mp (Answered.orFail_eq_ok.mp hd)
  obtain ⟨start', hstart', hday'⟩ := advance?_eq_some_iff.mp (Answered.orFail_eq_ok.mp he)
  rcases hcounts.lt_of_ne hne with hmore | ⟨hyears, hmonths, hmore⟩
  · -- more months in all stop in a later month, and the days that follow are no fewer
    have hmonth : start.month < start'.month := by
      rw [month_of_afterMonths? hstart, month_of_afterMonths? hstart']
      omega
    have hbefore : start.day < start'.day := Date.day_lt_of_month_lt hmonth
    have hdays := hcounts.daysInAll_le
    omega
  · rw [afterMonths?_congr hyears hmonths, hstart', Option.some.injEq] at hstart
    rw [hstart] at hday'
    omega

/-- It leads further only then, since with the same counts neither leads further than the other. -/
theorem endDate_lt_iff (hcounts : d.CountsAtMost e) (hd : d.endDate anchor = .ok reached)
    (he : e.endDate anchor = .ok stop) :
    reached.day < stop.day ↔ ∃ u, d.count u ≠ e.count u := by
  refine ⟨fun hlt => ?_, fun hne => endDate_lt hcounts hne hd he⟩
  -- with the same counts each would lead at least as far as the other
  by_contra hsame
  push Not at hsame
  have hback : e.CountsAtMost d := by
    intro u
    rw [hsame u]
    exact UInt32.le_refl (e.count u)
  obtain ⟨stop', hstop', hday⟩ := endDate_mono hback (Int.le_refl _) hd
  rw [he] at hstop'
  cases hstop'
  omega

/-! ## Durations of nothing -/

theorem isZero_iff : d.isZero = true ↔ ∀ u, d.count u = 0 := by
  simp only [isZero, Table.values, List.all_eq_true, List.mem_filterMap, beq_iff_eq]
  constructor
  · intro h u
    unfold count
    cases hu : d.counts.get? u with
    | none => rfl
    | some n => exact h n ⟨u, Enumeration.mem_all u, hu⟩
  · rintro h n ⟨u, _, hu⟩
    rw [← h u, count, hu, Option.getD_some]

theorem zero_countsAtMost (d : Duration) : zero.CountsAtMost d := fun _ => UInt32.zero_le

theorem isDays_of_isZero (h : d.isZero = true) : d.IsDays 0 := by
  rw [isZero_iff] at h
  exact ⟨h .years, h .months, by rw [h .weeks, h .days]; rfl⟩

theorem lengthInDays_nonneg {n : Int} (h : d.lengthInDays anchor = .ok n) : 0 ≤ n := by
  obtain ⟨stop, hstop, rfl⟩ := lengthInDays_eq_ok.mp h
  have hback : anchor.day ≤ stop.day := day_le_of_endDate hstop
  show 0 ≤ stop.day - anchor.day
  omega

/-- **Only a duration of nothing has no length.** -/
theorem lengthInDays_eq_zero_iff {n : Int} (h : d.lengthInDays anchor = .ok n) :
    n = 0 ↔ d.isZero = true := by
  obtain ⟨stop, hstop, rfl⟩ := lengthInDays_eq_ok.mp h
  constructor
  · intro hzero
    by_contra hnot
    -- the duration of nothing stays at the anchor, and this one leads further
    obtain ⟨reached, hreached, _⟩ := endDate_mono (zero_countsAtMost d) (Int.le_refl _) hstop
    have hstays := (isDays_of_isZero (d := zero) rfl).day_of_endDate hreached
    have hne : ∃ u, zero.count u ≠ d.count u := by
      rw [isZero_iff] at hnot
      push Not at hnot
      exact hnot.imp fun u hu => hu.symm
    have hfurther := endDate_lt (zero_countsAtMost d) hne hreached hstop
    unfold Date.daysUntil at hzero
    omega
  · intro hnothing
    have hstays := (isDays_of_isZero hnothing).day_of_endDate hstop
    show stop.day - anchor.day = 0
    omega

/-! ## At least so many years -/

theorem atLeastYears_eq_ok {years : UInt32} {long : Bool} :
    d.atLeastYears anchor years = .ok long
      ↔ ∃ reached threshold, d.endDate anchor = .ok reached
        ∧ (of .years years).endDate anchor = .ok threshold
        ∧ decide (threshold ≤ reached) = long := by
  simp only [atLeastYears, Answered.bind_eq_ok, Answered.pure_eq_ok]
  constructor
  · rintro ⟨reached, hreached, threshold, hthreshold, hlong⟩
    exact ⟨reached, threshold, hreached, hthreshold, hlong⟩
  · rintro ⟨reached, threshold, hreached, hthreshold, hlong⟩
    exact ⟨reached, hreached, threshold, hthreshold, hlong⟩

/-- **What is at least so many years is so with more of any unit.** -/
theorem atLeastYears_mono {years : UInt32} {long : Bool} (hcounts : d.CountsAtMost e)
    (h : e.atLeastYears anchor years = .ok long) :
    ∃ long', d.atLeastYears anchor years = .ok long' ∧ (long' = true → long = true) := by
  obtain ⟨stop, threshold, hstop, hthreshold, rfl⟩ := atLeastYears_eq_ok.mp h
  obtain ⟨reached, hreached, hle⟩ := endDate_mono hcounts (Int.le_refl _) hstop
  refine ⟨_, atLeastYears_eq_ok.mpr ⟨reached, threshold, hreached, hthreshold, rfl⟩, ?_⟩
  simp only [decide_eq_true_eq, Date.le_iff]
  omega

/-! ## Dates and durations in order -/

/-- **Advancing keeps the order of dates and of durations.** A duration does not lead back, nor
further from an earlier date than from a later one. From one date a duration that counts no unit
more often leads no further, and strictly less far exactly if a count differs. In either comparison
the walk that is no longer stays in the supported range if the other does. So no length is negative,
it is zero for durations of nothing alone, and what is at least so many years is so with more of any
unit. -/
theorem endDate_monotone :
    (∀ (d : Duration) (a b stop : Date), a ≤ b → d.endDate b = .ok stop →
      ∃ reached, d.endDate a = .ok reached ∧ a ≤ reached ∧ reached ≤ stop)
      ∧ (∀ (d e : Duration) (a stop : Date), d.CountsAtMost e → e.endDate a = .ok stop →
        ∃ reached, d.endDate a = .ok reached ∧ reached ≤ stop
          ∧ (reached < stop ↔ ∃ u, d.count u ≠ e.count u))
      ∧ (∀ (d : Duration) (a : Date) (n : Int), d.lengthInDays a = .ok n →
        0 ≤ n ∧ (n = 0 ↔ d.isZero = true))
      ∧ ∀ (d e : Duration) (a : Date) (years : UInt32) (long : Bool), d.CountsAtMost e →
        e.atLeastYears a years = .ok long →
        ∃ long', d.atLeastYears a years = .ok long' ∧ (long' = true → long = true) := by
  refine ⟨?_, ?_, ?_, ?_⟩
  · intro d a b stop hle hstop
    obtain ⟨reached, hreached, hday⟩ := endDate_mono (.refl d) hle hstop
    exact ⟨reached, hreached, day_le_of_endDate hreached, hday⟩
  · intro d e a stop hcounts hstop
    obtain ⟨reached, hreached, hday⟩ := endDate_mono hcounts (Int.le_refl _) hstop
    exact ⟨reached, hreached, hday, endDate_lt_iff hcounts hreached hstop⟩
  · intro d a n hn
    exact ⟨lengthInDays_nonneg hn, lengthInDays_eq_zero_iff hn⟩
  · intro d e a years long hcounts hlong
    exact atLeastYears_mono hcounts hlong

/-- Twelve months from either of the last two days of February 2024 lead to the end of the next
February. With a day more it is 1 March, which is less than two years as well. -/
theorem endDate_monotone_fromFebruary :
    EnglandAndWales.on 2024 2 28 ≤ EnglandAndWales.on 2024 2 29
      ∧ (of .months 12).endDate (EnglandAndWales.on 2024 2 29)
        = .ok (EnglandAndWales.on 2025 2 28)
      ∧ (∃ reached, (of .months 12).endDate (EnglandAndWales.on 2024 2 28) = .ok reached
        ∧ EnglandAndWales.on 2024 2 28 ≤ reached ∧ reached ≤ EnglandAndWales.on 2025 2 28)
      ∧ (of .months 12).CountsAtMost ((of .months 12).plus .days 1)
      ∧ ((of .months 12).plus .days 1).endDate (EnglandAndWales.on 2024 2 29)
        = .ok (EnglandAndWales.on 2025 3 1)
      ∧ (∃ reached, (of .months 12).endDate (EnglandAndWales.on 2024 2 29) = .ok reached
        ∧ reached < EnglandAndWales.on 2025 3 1)
      ∧ (of .months 12).lengthInDays (EnglandAndWales.on 2024 2 29) = .ok 365
      ∧ (0 : Int) ≤ 365
      ∧ ((of .months 12).plus .days 1).atLeastYears (EnglandAndWales.on 2024 2 29) 2 = .ok false
      ∧ (of .months 12).atLeastYears (EnglandAndWales.on 2024 2 29) 2 = .ok false := by
  obtain ⟨hdates, hdurations, hlengths, hyears⟩ := endDate_monotone
  have hle : EnglandAndWales.on 2024 2 28 ≤ EnglandAndWales.on 2024 2 29 := by decide +kernel
  have hcounts : (of .months 12).CountsAtMost ((of .months 12).plus .days 1) := by decide +kernel
  have hstop : (of .months 12).endDate (EnglandAndWales.on 2024 2 29)
      = .ok (EnglandAndWales.on 2025 2 28) := by decide +kernel
  have hstop' : ((of .months 12).plus .days 1).endDate (EnglandAndWales.on 2024 2 29)
      = .ok (EnglandAndWales.on 2025 3 1) := by decide +kernel
  have hlength : (of .months 12).lengthInDays (EnglandAndWales.on 2024 2 29) = .ok 365 := by
    decide +kernel
  have hshort : ((of .months 12).plus .days 1).atLeastYears (EnglandAndWales.on 2024 2 29) 2
      = .ok false := by decide +kernel
  obtain ⟨reached, hreached, _, hless⟩ := hdurations _ _ _ _ hcounts hstop'
  have hlt : reached < EnglandAndWales.on 2025 3 1 := hless.mpr ⟨.days, by decide⟩
  obtain ⟨long, hlong, hnot⟩ := hyears _ _ _ _ _ hcounts hshort
  rw [Bool.eq_false_of_not_eq_true fun h => Bool.false_ne_true (hnot h)] at hlong
  exact ⟨hle, hstop, hdates _ _ _ _ hle hstop, hcounts, hstop', ⟨reached, hreached, hlt⟩, hlength,
    (hlengths _ _ _ hlength).1, hshort, hlong⟩

end Duration

end Custody
