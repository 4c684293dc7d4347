import Custody.Proofs.Answered
import Custody.Reckoning
import Mathlib.Algebra.Order.Group.Int
import Mathlib.Order.Monotone.Basic

/-!
# Advancing along the calendar

Dates are compared by their place on the day line, so every fact about moving a date is stated on
`Date.day` and closed by linear arithmetic. Months begin one after the other on that line
(`monthStart_le`), which is why advancing by months or by a duration never goes back, a later date
is not overtaken, and counting more leads no less far.

* **`Date.plusDays_eq_ok`**, **`Date.lastDay_eq_ok`**: where a count of days leads.
* **`Date.day_le_of_addMonths?`**, **`Duration.day_le_of_endDate`**: advancing does not go back.
* **`Duration.advance?_mono`**, **`Duration.endDate_mono`**: what can be advanced from a date can be
  from an earlier one, by as much or by less.
* **`Date.daysUntil_le_range`**: no two dates are further apart than the range is long.
-/

namespace Custody

open Custody.Calendar

namespace Calendar

/-! ## Months on the day line -/

theorem monthStart_le {m n : Int} (h : m ≤ n) : monthStart m ≤ monthStart n :=
  monotone_int_of_le_succ (fun k => (monthStart_lt_succ k).le) h

namespace Date

/-! ## Order by the day -/

protected theorem not_le {a b : Date} : ¬ a ≤ b ↔ b < a := by
  rw [le_iff, lt_iff, Int.not_le]

theorem max_of_le {a b : Date} (h : a ≤ b) : max a b = b := if_pos h

theorem max_of_not_le {a b : Date} (h : ¬ a ≤ b) : max a b = a := if_neg h

theorem day_max (a b : Date) : (max a b).day = max a.day b.day := by
  change (if a ≤ b then b else a).day = _
  split
  · next h => rw [le_iff] at h; omega
  · next h => rw [le_iff] at h; omega

instance : Std.IsLinearOrder Date where
  le_refl a := by rw [le_iff]
  le_trans a b c hab hbc := by rw [le_iff] at hab hbc ⊢; omega
  le_antisymm a b hab hba := by rw [le_iff] at hab hba; exact Date.ext (by omega)
  le_total a b := by rw [le_iff, le_iff]; omega

instance : Std.LawfulOrderMin Date where
  min_eq_or a b := by
    show (if a ≤ b then a else b) = a ∨ (if a ≤ b then a else b) = b
    split
    · exact .inl rfl
    · exact .inr rfl
  le_min_iff a b c := by
    show a ≤ (if b ≤ c then b else c) ↔ _
    split
    · next h => simp only [le_iff] at h ⊢; omega
    · next h => simp only [le_iff] at h ⊢; omega

instance : Std.LawfulOrderMax Date where
  max_eq_or a b := by
    show (if a ≤ b then b else a) = a ∨ (if a ≤ b then b else a) = b
    split
    · exact .inr rfl
    · exact .inl rfl
  max_le_iff a b c := by
    show (if a ≤ b then b else a) ≤ c ↔ _
    split
    · next h => simp only [le_iff] at h ⊢; omega
    · next h => simp only [le_iff] at h ⊢; omega

theorem min?_eq_of_perm {xs ys : List Date} (h : xs.Perm ys) : xs.min? = ys.min? := by
  apply Option.ext
  intro a
  rw [List.min?_eq_some_iff, List.min?_eq_some_iff]
  simp only [h.mem_iff]

theorem max?_eq_of_perm {xs ys : List Date} (h : xs.Perm ys) : xs.max? = ys.max? := by
  apply Option.ext
  intro a
  rw [List.max?_eq_some_iff, List.max?_eq_some_iff]
  simp only [h.mem_iff]

/-- The whole range, in days, is shorter than two hundred million. -/
theorem daysUntil_le_range (a b : Date) : a.daysUntil b ≤ 200000000 := by
  have hfirst := a.firstDay_le
  have hlast := b.le_lastDay
  have hrange : Calendar.lastDay - firstDay ≤ 200000000 := by decide
  simp only [daysUntil]
  omega

theorem daysUntil_bounds (a b : Date) :
    -200000000 ≤ b.day - a.day ∧ b.day - a.day ≤ 200000000 := by
  have hforward := daysUntil_le_range a b
  have hback := daysUntil_le_range b a
  simp only [daysUntil] at hforward hback
  omega

/-! ## Days and months later -/

theorem addDays?_eq_some {d e : Date} {n : Int} : d.addDays? n = some e ↔ e.day = d.day + n :=
  ofDay?_eq_some_iff

theorem plusDays_eq_ok {d e : Date} {n : Int} : d.plusDays n = .ok e ↔ e.day = d.day + n := by
  rw [plusDays, Answered.orFail_eq_ok, addDays?_eq_some]

theorem lastDay_eq_ok {d e : Date} {n : Int} :
    d.lastDay n = .ok e ↔ e.day = d.day + max (wrap64 (n - 1)) 0 := by
  rw [Date.lastDay, plusDays_eq_ok]

/-- A count does not end before its first day. -/
theorem start_le_of_lastDay {d e : Date} {n : Int} (h : d.lastDay n = .ok e) : d.day ≤ e.day := by
  have hday := lastDay_eq_ok.mp h
  omega

/-- A count that ends on a date is not a great one. -/
theorem count_le_of_day_eq {d e : Date} {n : Int} (h : e.day = d.day + max (n - 1) 0) :
    n ≤ 1000000000 := by
  have hrange := daysUntil_le_range d e
  simp only [daysUntil] at hrange
  omega

/-- Of a count of 64 bits the last day is where it should be: the least of them alone is cut, and
comes out beyond the range. -/
theorem day_of_lastDay {d e : Date} {n : Int} (hn : fits64 n = true) (h : d.lastDay n = .ok e) :
    e.day = d.day + max (n - 1) 0 := by
  have hday := lastDay_eq_ok.mp h
  have hrange := daysUntil_le_range d e
  obtain ⟨k, hk⟩ := wrap64_spec (n - 1)
  rw [fits64_iff] at hn
  simp only [daysUntil] at hrange
  omega

/-- A sum that leads from a date to a date has not been cut, where one of its terms is small. -/
theorem day_eq_of_wrap64 {d e : Date} {n a : Int} (hlow : -200000000 ≤ n) (hhigh : n ≤ 200000000)
    (ha : fits64 a = true) (h : e.day = d.day + wrap64 (n + a)) : e.day = d.day + (n + a) := by
  have hrange := d.daysUntil_bounds e
  obtain ⟨k, hk⟩ := wrap64_spec (n + a)
  rw [fits64_iff] at ha
  omega

/-- The day on which a date some months later falls, whether the range reaches that far or not. -/
def dayInMonths (d : Date) (n : Int) : Int :=
  monthStart (d.month + n) + min d.offset (monthLength (d.month + n) - 1)

theorem addMonths?_eq_some {d e : Date} {n : Int} :
    d.addMonths? n = some e ↔ e.day = d.dayInMonths n :=
  ofDay?_eq_some_iff

theorem day_eq (d : Date) : d.day = monthStart d.month + d.offset := by
  unfold offset
  omega

/-- A later month starts after the day, and in the same month the day of the month is kept. -/
theorem day_le_dayInMonths {d : Date} {n : Int} (hn : 0 ≤ n) : d.day ≤ d.dayInMonths n := by
  have hoffset := d.offset_bounds
  have hday := d.day_eq
  unfold dayInMonths
  rcases eq_or_lt_of_le hn with hzero | hpos
  · rw [← hzero, Int.add_zero]
    omega
  · -- the first of a later month is already beyond the date
    have hlater : monthStart (d.month + 1) ≤ monthStart (d.month + n) :=
      monthStart_le (by omega)
    have hlength := monthLength_bounds (d.month + n)
    simp only [monthLength] at hoffset hlength ⊢
    omega

theorem day_le_of_addMonths? {d e : Date} {n : Int} (hn : 0 ≤ n) (h : d.addMonths? n = some e) :
    d.day ≤ e.day := by
  rw [addMonths?_eq_some.mp h]
  exact day_le_dayInMonths hn

theorem month_le {d e : Date} (h : d.day ≤ e.day) : d.month ≤ e.month := by
  by_contra hlt
  -- the later date would be in a month that ends before the other starts
  have hstart : monthStart (e.month + 1) ≤ monthStart d.month := monthStart_le (by omega)
  have hafter : e.day < monthStart (e.month + 1) := lt_monthStart_monthOf e.day
  have hbefore : monthStart d.month ≤ d.day := monthStart_le_monthOf d.day
  omega

/-- A later date is not overtaken by as many months or fewer: it falls in a later month, or later in
the same one. -/
theorem dayInMonths_mono {d e : Date} {m n : Int} (h : d.day ≤ e.day) (hmn : m ≤ n) :
    d.dayInMonths m ≤ e.dayInMonths n := by
  have hd := d.day_eq
  have he := e.day_eq
  have hmonth : d.month ≤ e.month := month_le h
  unfold dayInMonths
  rcases eq_or_lt_of_le (Int.add_le_add hmonth hmn) with hsame | hlater
  · -- as many months from the same month
    have hstart : d.month = e.month := by omega
    rw [hstart] at hd
    rw [hsame]
    omega
  · have hafter : monthStart (d.month + m + 1) ≤ monthStart (e.month + n) := monthStart_le hlater
    have hoffset := e.offset_bounds
    have hlength := monthLength_bounds (e.month + n)
    simp only [monthLength] at hlength ⊢
    omega

theorem addMonths?_mono {d e e' : Date} {m n : Int} (hm : 0 ≤ m) (hmn : m ≤ n)
    (hle : d.day ≤ e.day) (h : e.addMonths? n = some e') :
    ∃ d', d.addMonths? m = some d' ∧ d'.day ≤ e'.day := by
  rw [addMonths?_eq_some] at h
  have hmono := dayInMonths_mono hle hmn
  have hback := day_le_dayInMonths (d := d) hm
  have hfirst := d.firstDay_le
  have hlast := e'.le_lastDay
  exact ⟨⟨d.dayInMonths m, by omega, by omega⟩, addMonths?_eq_some.mpr rfl, by simp only; omega⟩

theorem addDays?_mono {d e e' : Date} {m n : Int} (hm : 0 ≤ m) (hmn : m ≤ n)
    (hle : d.day ≤ e.day) (h : e.addDays? n = some e') :
    ∃ d', d.addDays? m = some d' ∧ d'.day ≤ e'.day := by
  rw [addDays?_eq_some] at h
  have hfirst := d.firstDay_le
  have hlast := e'.le_lastDay
  exact ⟨⟨d.day + m, by omega, by omega⟩, addDays?_eq_some.mpr rfl, by simp only; omega⟩

end Date

end Calendar

/-! ## Durations -/

namespace Duration

theorem day_le_of_advance? {d : Duration} {anchor e : Date} (h : d.advance? anchor = some e) :
    anchor.day ≤ e.day := by
  simp only [advance?, Option.bind_eq_bind, Option.bind_eq_some_iff] at h
  obtain ⟨years, hyears, months, hmonths, weeks, hweeks, hdays⟩ := h
  have h1 := Date.day_le_of_addMonths? (by omega) hyears
  have h2 := Date.day_le_of_addMonths? (by omega) hmonths
  rw [Date.addDays?_eq_some] at hweeks hdays
  omega

/-- No unit is counted more often by the one than by the other. -/
def CountsAtMost (d e : Duration) : Prop :=
  ∀ u, d.count u ≤ e.count u

instance (d e : Duration) : Decidable (d.CountsAtMost e) :=
  decidable_of_iff (∀ u ∈ (Enumeration.all : List DurationUnit), d.count u ≤ e.count u)
    ⟨fun h u => h u (Enumeration.mem_all u), fun h u _ => h u⟩

theorem CountsAtMost.refl (d : Duration) : d.CountsAtMost d := fun u => UInt32.le_refl (d.count u)

theorem CountsAtMost.toNat_le {d e : Duration} (h : d.CountsAtMost e) (u : DurationUnit) :
    (d.count u).toNat ≤ (e.count u).toNat :=
  UInt32.le_iff_toNat_le.mp (h u)

/-- **What can be advanced from a date can be advanced from an earlier one**, by as much or by less,
and not further. Every step of the walk keeps the two dates in order. -/
theorem advance?_mono {d e : Duration} {a b stop : Date} (hcounts : d.CountsAtMost e)
    (hle : a.day ≤ b.day) (h : e.advance? b = some stop) :
    ∃ reached, d.advance? a = some reached ∧ reached.day ≤ stop.day := by
  have hyearsLe := hcounts.toNat_le .years
  have hmonthsLe := hcounts.toNat_le .months
  have hweeksLe := hcounts.toNat_le .weeks
  have hdaysLe := hcounts.toNat_le .days
  simp only [advance?, Option.bind_eq_bind, Option.bind_eq_some_iff] at h ⊢
  obtain ⟨years, hyears, months, hmonths, weeks, hweeks, hdays⟩ := h
  -- unit by unit, the largest first, the one date stays behind the other
  obtain ⟨years', hyears', hle⟩ :=
    Date.addMonths?_mono (m := 12 * (d.count .years).toNat) (by omega) (by omega) hle hyears
  obtain ⟨months', hmonths', hle⟩ :=
    Date.addMonths?_mono (m := (d.count .months).toNat) (by omega) (by omega) hle hmonths
  obtain ⟨weeks', hweeks', hle⟩ :=
    Date.addDays?_mono (m := 7 * (d.count .weeks).toNat) (by omega) (by omega) hle hweeks
  obtain ⟨days', hdays', hle⟩ :=
    Date.addDays?_mono (m := (d.count .days).toNat) (by omega) (by omega) hle hdays
  exact ⟨days', ⟨years', hyears', months', hmonths', weeks', hweeks', hdays'⟩, hle⟩

theorem endDate_mono {d e : Duration} {a b stop : Date} (hcounts : d.CountsAtMost e)
    (hle : a.day ≤ b.day) (h : e.endDate b = .ok stop) :
    ∃ reached, d.endDate a = .ok reached ∧ reached.day ≤ stop.day := by
  obtain ⟨reached, hreached, hday⟩ := advance?_mono hcounts hle (Answered.orFail_eq_ok.mp h)
  exact ⟨reached, Answered.orFail_eq_ok.mpr hreached, hday⟩

theorem lengthInDays_eq_ok {d : Duration} {anchor : Date} {n : Int} :
    d.lengthInDays anchor = .ok n ↔ ∃ e, d.endDate anchor = .ok e ∧ anchor.daysUntil e = n := by
  rw [lengthInDays, Answered.bind_eq_ok]
  simp only [Answered.pure_eq_ok]

theorem lengthInDays_of_le {d : Duration} {a b : Date} {n : Int} (hle : a.day ≤ b.day)
    (h : d.lengthInDays b = .ok n) : ∃ m, d.lengthInDays a = .ok m := by
  obtain ⟨e, he, _⟩ := lengthInDays_eq_ok.mp h
  obtain ⟨e', he', _⟩ := endDate_mono (.refl d) hle he
  exact ⟨a.daysUntil e', lengthInDays_eq_ok.mpr ⟨e', he', rfl⟩⟩

theorem day_le_of_endDate {d : Duration} {anchor e : Date} (h : d.endDate anchor = .ok e) :
    anchor.day ≤ e.day :=
  day_le_of_advance? (Answered.orFail_eq_ok.mp h)

end Duration

end Custody
