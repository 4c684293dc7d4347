import Custody.Proofs.Calendar.Period
import Custody.Proofs.Sentence.Contiguity

/-!
# Components that count days

A duration of weeks and days alone is as long from any anchor. So components of such durations are
laid out without a look at the calendar: each part is as long as its component counts, wherever it
starts, and all that can go wrong is that the last part leaves the supported range.

* **`Term.InDays`**, **`Term.Lasts`**: terms that count days alone, and those among them that are
  custodial throughout.
* **`Sentence.exists_layOut_iff`**: how far components that count days are laid out.
* **`Sentence.CountsDays`**: sentences of such components.
* **`Sentence.CountsDays.laidOut`**, **`Sentence.CountsDays.exists_aggregate`**: their layout.
* **`Aggregate.botusDaysFirst_append`**: committals that are served before all others.
-/

namespace Custody

open Custody.Calendar

/-! ## Durations and terms -/

/-- The range has every day between two of its dates. -/
theorem Calendar.Date.exists_day (start finish : Date) {n : Int} (hstart : start.day ≤ n)
    (hfinish : n ≤ finish.day) : ∃ d : Date, d.day = n := by
  have hfirst := start.firstDay_le
  have hlast := finish.le_lastDay
  exact ⟨⟨n, by omega, by omega⟩, rfl⟩

namespace Duration

/-- The weeks and days that a duration counts, a week as seven days. -/
def dayCount (d : Duration) : Nat := 7 * (d.count .weeks).toNat + (d.count .days).toNat

/-- A duration of days leads to the date so many days on, if the range reaches that far. -/
theorem IsDays.endDate_eq_ok_iff {d : Duration} {n : Nat} (h : d.IsDays n) {anchor e : Date} :
    d.endDate anchor = .ok e ↔ e.day = anchor.day + n := by
  refine ⟨h.day_of_endDate, fun hday => ?_⟩
  have hdays := h.days
  -- the weeks lead to a date in between
  obtain ⟨w, hw⟩ : ∃ w : Date, w.day = anchor.day + 7 * (d.count .weeks).toNat :=
    Date.exists_day anchor e (by omega) (by omega)
  unfold endDate
  simp only [Answered.orFail_eq_ok, advance?, h.years, h.months, Option.bind_eq_bind,
    Option.bind_eq_some_iff, Date.addMonths?_eq_some, Date.addDays?_eq_some]
  refine ⟨anchor, (Date.dayInMonths_zero anchor).symm, anchor, (Date.dayInMonths_zero anchor).symm,
    w, hw, ?_⟩
  omega

end Duration

namespace Term

/-- The weeks and days that a term counts. -/
def dayCount : Term → Nat
  | .standard t => t.duration.dayCount
  | .extended custodial licence => custodial.dayCount + licence.dayCount
  | .botus duration => duration.dayCount

/-- The durations of a term, one after the other. -/
def durations : Term → List Duration
  | .standard t => [t.duration]
  | .extended custodial licence => [custodial, licence]
  | .botus duration => [duration]

/-- A term that counts weeks and days alone. -/
def InDays (t : Term) : Prop :=
  ∀ d ∈ t.durations, d.count .years = 0 ∧ d.count .months = 0

instance (t : Term) : Decidable t.InDays :=
  inferInstanceAs (Decidable (∀ d ∈ t.durations, d.count .years = 0 ∧ d.count .months = 0))

/-- The term ends so many days on. -/
theorem InDays.exists_ends_iff {t : Term} (h : t.InDays) {start finish : Date} :
    (∃ custodialEnd, t.ends start = .ok (custodialEnd, finish))
      ↔ finish.day = start.day + t.dayCount := by
  have hdays : ∀ d ∈ t.durations, d.IsDays d.dayCount := fun d hd => ⟨(h d hd).1, (h d hd).2, rfl⟩
  cases t with
  | standard t =>
    have hduration := hdays t.duration List.mem_cons_self
    simp only [ends, Answered.bind_eq_ok, Answered.pure_eq_ok, hduration.endDate_eq_ok_iff,
      Prod.mk.injEq]
    constructor
    · rintro ⟨_, _, hday, _, rfl⟩
      exact hday
    · intro hday
      exact ⟨finish, finish, hday, rfl, rfl⟩
  | botus duration =>
    have hduration := hdays duration List.mem_cons_self
    simp only [ends, Answered.bind_eq_ok, Answered.pure_eq_ok, hduration.endDate_eq_ok_iff,
      Prod.mk.injEq]
    constructor
    · rintro ⟨_, _, hday, _, rfl⟩
      exact hday
    · intro hday
      exact ⟨finish, finish, hday, rfl, rfl⟩
  | extended custodial licence =>
    have hcustodial := hdays custodial List.mem_cons_self
    have hlicence := hdays licence (List.mem_cons_of_mem _ List.mem_cons_self)
    simp only [ends, dayCount, Answered.bind_eq_ok, Answered.pure_eq_ok,
      hcustodial.endDate_eq_ok_iff, hlicence.endDate_eq_ok_iff, Prod.mk.injEq]
    constructor
    · rintro ⟨_, custodialEnd, hcustody, _, hday, rfl, rfl⟩
      omega
    · intro hday
      -- the licence starts on a date in between
      obtain ⟨custodialEnd, hcustody⟩ : ∃ c : Date, c.day = start.day + custodial.dayCount :=
        Date.exists_day start finish (by omega) (by omega)
      exact ⟨custodialEnd, custodialEnd, hcustody, finish, by omega, rfl, rfl⟩

/-- A term that is custodial throughout and counts days alone, so many of them. -/
inductive Lasts : Term → Nat → Prop where
  | standard {t : StandardTerm} {n : Nat} (h : t.duration.IsDays n) : Lasts (.standard t) n
  | botus {duration : Duration} {n : Nat} (h : duration.IsDays n) : Lasts (.botus duration) n

theorem Lasts.dayCount_eq {t : Term} {n : Nat} (h : t.Lasts n) : t.dayCount = n := by
  cases h with
  | standard h => exact h.days
  | botus h => exact h.days

theorem Lasts.self {t : Term} {n : Nat} (h : t.Lasts n) : t.Lasts t.dayCount := by
  rwa [h.dayCount_eq]

theorem Lasts.inDays {t : Term} {n : Nat} (h : t.Lasts n) : t.InDays := by
  cases h with
  | standard h => exact List.forall_mem_singleton.mpr ⟨h.years, h.months⟩
  | botus h => exact List.forall_mem_singleton.mpr ⟨h.years, h.months⟩

/-- The term ends so many days on, custody with it. -/
theorem Lasts.ends_eq_ok_iff {t : Term} {n : Nat} (h : t.Lasts n) {start : Date}
    {ends : Date × Date} :
    t.ends start = .ok ends ↔ ends.1 = ends.2 ∧ ends.2.day = start.day + n := by
  obtain ⟨custodialEnd, finish⟩ := ends
  cases h with
  | standard h =>
    simp only [Term.ends, Answered.bind_eq_ok, Answered.pure_eq_ok, h.endDate_eq_ok_iff,
      Prod.mk.injEq]
    constructor
    · rintro ⟨_, hday, rfl, rfl⟩
      exact ⟨rfl, hday⟩
    · rintro ⟨rfl, hday⟩
      exact ⟨_, hday, rfl, rfl⟩
  | botus h =>
    simp only [Term.ends, Answered.bind_eq_ok, Answered.pure_eq_ok, h.endDate_eq_ok_iff,
      Prod.mk.injEq]
    constructor
    · rintro ⟨_, hday, rfl, rfl⟩
      exact ⟨rfl, hday⟩
    · rintro ⟨rfl, hday⟩
      exact ⟨_, hday, rfl, rfl⟩

end Term

/-! ## Parts -/

/-- The days of sentences together. -/
def dayTotal : List Single → Nat
  | [] => 0
  | s :: ss => s.term.dayCount + dayTotal ss

theorem dayTotal_cons (s : Single) (ss : List Single) :
    dayTotal (s :: ss) = s.term.dayCount + dayTotal ss := rfl

theorem dayTotal_append (ss ss' : List Single) :
    dayTotal (ss ++ ss') = dayTotal ss + dayTotal ss' := by
  induction ss with
  | nil => exact (Nat.zero_add (dayTotal ss')).symm
  | cons s ss ih => rw [List.cons_append, dayTotal_cons, dayTotal_cons, ih, Nat.add_assoc]

/-- A part on the track of a component, as long as the component counts and custodial throughout. -/
structure Part.Spans (p : Part) (s : Single) : Prop where
  track : p.track = s.track
  days : p.days = s.term.dayCount
  custodialDays : p.custodialDays = s.term.dayCount

/-- A measure of parts that are as long as their components adds up to what these count. -/
theorem Part.totalOf_of_spans {measure : Part → Int}
    (hmeasure : ∀ p s, Spans p s → measure p = s.term.dayCount) {parts : List Part}
    {ss : List Single} (h : List.Forall₂ Spans parts ss) :
    totalOf measure parts = dayTotal ss := by
  induction h with
  | nil => rfl
  | cons hpart _ ih =>
    rw [totalOf_cons, hmeasure _ _ hpart, ih, dayTotal_cons, Int.natCast_add]

namespace Sentence

variable {ss : List Single} {start : Date}

/-- Each part is as long as its component counts, by induction on the components with the place
where the next one starts. -/
theorem layOut_spans (hlasts : ∀ s ∈ ss, s.term.Lasts s.term.dayCount)
    {laid : List Part × Date} (h : layOut start (ss.map single) = .ok laid) :
    List.Forall₂ Part.Spans laid.1 ss := by
  induction ss generalizing start laid with
  | nil =>
    cases h
    exact .nil
  | cons s ss ih =>
    rw [List.forall_mem_cons] at hlasts
    obtain ⟨_, part, laid', hsingle, hpart, hlaid, rfl⟩ := layOut_cons_eq_ok.mp h
    cases hsingle
    obtain ⟨ends, hends, rfl⟩ := Single.servedFrom_eq_ok.mp hpart
    obtain ⟨hcustody, hday⟩ := hlasts.1.ends_eq_ok_iff.mp hends
    -- the part ends when the days of its component are over, custody with it
    have hlength : start.daysUntil ends.2 = s.term.dayCount := by
      unfold Date.daysUntil
      omega
    refine .cons ⟨rfl, hlength, ?_⟩ (ih hlasts.2 hlaid)
    show start.daysUntil ends.1 = _
    rw [hcustody, hlength]

/-- **Components are laid out up to the date so many days on**, wherever custodial terms end. -/
theorem exists_layOut_iff (hdays : ∀ s ∈ ss, s.term.InDays) {finish : Date} :
    (∃ parts, layOut start (ss.map single) = .ok (parts, finish))
      ↔ finish.day = start.day + dayTotal ss := by
  induction ss generalizing start with
  | nil =>
    constructor
    · rintro ⟨_, hlaid⟩
      cases hlaid
      exact (Int.add_zero _).symm
    · intro hfinish
      have hsame : finish = start := Date.ext (hfinish.trans (Int.add_zero start.day))
      exact ⟨[], by rw [hsame]; rfl⟩
  | cons s ss ih =>
    rw [List.forall_mem_cons] at hdays
    rw [dayTotal_cons]
    constructor
    · rintro ⟨_, hlaid⟩
      obtain ⟨_, part, laid', hsingle, hpart, hrest, heq⟩ := layOut_cons_eq_ok.mp hlaid
      cases hsingle
      obtain ⟨ends, hends, rfl⟩ := Single.servedFrom_eq_ok.mp hpart
      obtain ⟨_, rfl⟩ := Prod.mk.inj heq
      have hnext : ends.2.day = start.day + s.term.dayCount :=
        hdays.1.exists_ends_iff.mp ⟨ends.1, hends⟩
      have hfinish : laid'.2.day = ends.2.day + dayTotal ss := (ih hdays.2).mp ⟨laid'.1, hrest⟩
      omega
    · intro hfinish
      -- the first component ends on a date before the last one does
      obtain ⟨next, hnext⟩ : ∃ next : Date, next.day = start.day + s.term.dayCount :=
        Date.exists_day start finish (by omega) (by omega)
      obtain ⟨custodialEnd, hends⟩ := hdays.1.exists_ends_iff.mpr hnext
      have hlast : finish.day = next.day + dayTotal ss := by omega
      obtain ⟨parts, hrest⟩ := (ih hdays.2).mpr hlast
      exact ⟨_, layOut_cons_eq_ok.mpr ⟨s, _, (parts, finish), rfl,
        Single.servedFrom_eq_ok.mpr ⟨_, hends, rfl⟩, hrest, rfl⟩⟩

/-- The earliest of dates that are all the same. -/
theorem sentencedAt?_chain (hne : ss ≠ []) {date : Date} (hdate : ∀ s ∈ ss, s.sentencedAt = date)
    (track : Option Track) : (chain (ss.map single) track).sentencedAt? = some date := by
  show earliestOf? (ss.map single) = some date
  induction ss with
  | nil => exact absurd rfl hne
  | cons s ss ih =>
    rw [List.forall_mem_cons] at hdate
    rw [List.map_cons, earliestOf?, show (single s).sentencedAt? = some date from
      congrArg some hdate.1]
    -- the earliest of one and the same date
    cases ss with
    | nil => rfl
    | cons s' ss =>
      rw [ih (List.cons_ne_nil s' ss) hdate.2]
      exact congrArg some (Std.min_self : min date date = date)

end Sentence

/-! ## Sentences -/

/-- A sentence passed on a date, which is not recalled and counts days. -/
structure Single.CountsDays (s : Single) (date : Date) : Prop where
  sentencedAt : s.sentencedAt = date
  notRecalled : s.recallType = .notRecalled
  lasts : s.term.Lasts s.term.dayCount

/-- A sentence, single or a chain, of such components. -/
structure Sentence.CountsDays (unit : Sentence) (date : Date) (ss : List Single) : Prop where
  components : unit.components = ss.map single
  ne_nil : ss ≠ []
  counts : ∀ s ∈ ss, s.CountsDays date

/-- A layout of components that count days, from a date on. -/
structure Aggregate.LaidOut (a : Aggregate) (date : Date) (ss : List Single) : Prop where
  sentencedAt : a.sentencedAt = date
  spans : List.Forall₂ Part.Spans a.parts ss
  totalDays : a.totalDays = dayTotal ss

namespace Aggregate.LaidOut

variable {a : Aggregate} {date : Date} {ss : List Single}

theorem day_finish (h : a.LaidOut date ss) : a.finish.day = date.day + dayTotal ss := by
  have htotal := h.totalDays
  rw [Aggregate.totalDays, h.sentencedAt, Date.daysUntil] at htotal
  omega

/-- What is laid out is no longer than the range of dates. -/
theorem dayTotal_le (h : a.LaidOut date ss) : dayTotal ss ≤ 200000000 := by
  have hrange := Date.daysUntil_le_range a.sentencedAt a.finish
  have htotal := h.totalDays
  rw [Aggregate.totalDays] at htotal
  omega

end Aggregate.LaidOut

namespace Sentence.CountsDays

variable {unit : Sentence} {date : Date} {ss : List Single}

theorem lasts (h : unit.CountsDays date ss) : ∀ s ∈ ss, s.term.Lasts s.term.dayCount :=
  fun s hs => (h.counts s hs).lasts

theorem singles_eq (h : unit.CountsDays date ss) : unit.singles = ss := by
  rw [singles, h.components, List.filterMap_map]
  exact List.filterMap_some

theorem componentTracks_eq (h : unit.CountsDays date ss) :
    unit.componentTracks = ss.filterMap Single.track := by
  rw [componentTracks, h.components, List.filterMap_map]
  rfl

/-- A sentence is not recalled if none of its components is. -/
theorem recallType_eq (h : unit.CountsDays date ss) : unit.recallType = .notRecalled := by
  have hnone : (ss.map Single.recallType).find? RecallType.isRecall = none := by
    rw [List.find?_eq_none]
    intro type htype
    obtain ⟨s, hs, rfl⟩ := List.mem_map.mp htype
    rw [(h.counts s hs).notRecalled]
    exact Bool.false_ne_true
  rw [recallType, h.singles_eq, hnone, Option.getD_none]

/-- Single or a chain, it was passed on the date of its components. -/
theorem sentencedAt?_eq (h : unit.CountsDays date ss) : unit.sentencedAt? = some date := by
  have hcomponents := h.components
  cases unit with
  | single s =>
    obtain ⟨s', rest, rfl⟩ := List.exists_cons_of_ne_nil h.ne_nil
    rw [Sentence.components, List.map_cons, List.cons.injEq, single.injEq] at hcomponents
    rw [hcomponents.1]
    exact congrArg some (h.counts s' List.mem_cons_self).sentencedAt
  | chain parts track =>
    rw [Sentence.components] at hcomponents
    rw [hcomponents, sentencedAt?_chain h.ne_nil fun s hs => (h.counts s hs).sentencedAt]

/-- **The layout of components that count days.** -/
theorem laidOut (h : unit.CountsDays date ss) {a : Aggregate} (ha : unit.aggregate = .ok a) :
    a.LaidOut date ss := by
  obtain ⟨hsentenced, hlaid⟩ := aggregate_eq_ok.mp ha
  rw [h.components] at hlaid
  have hspans := layOut_spans h.lasts hlaid
  refine ⟨Option.some.inj (hsentenced.symm.trans h.sentencedAt?_eq), hspans, ?_⟩
  rw [Aggregate.totalDays, ← (layOut_contiguous hlaid).totalOf_days]
  exact Part.totalOf_of_spans (fun _ _ hpart => hpart.days) hspans

/-- There is a layout, if the range reaches that far. -/
theorem exists_aggregate (h : unit.CountsDays date ss) {finish : Date}
    (hfinish : finish.day = date.day + dayTotal ss) : ∃ a, unit.aggregate = .ok a := by
  obtain ⟨parts, hlaid⟩ := (exists_layOut_iff fun s hs => (h.lasts s hs).inDays).mpr hfinish
  rw [← h.components] at hlaid
  exact ⟨⟨date, finish, parts⟩, aggregate_eq_ok.mpr ⟨h.sentencedAt?_eq, hlaid⟩⟩

end Sentence.CountsDays

/-! ## Committals first -/

namespace Aggregate

/-- Committals that are served before standard determinate sentences count in full. -/
theorem botusDaysFirst_append {a : Aggregate} {front back : List Part}
    (hparts : a.parts = front ++ back) (hfront : ∀ p ∈ front, p.track = some .botus)
    (hback : ∀ p ∈ back, isSdsPart p = true) (hne : back ≠ []) :
    a.botusDaysFirst = totalOf Part.days front := by
  -- the committals are passed over, and the first of the others is not
  have hnot : ∀ p ∈ front, (!isSdsPart p) = true := by
    intro p hp
    rw [isSdsPart, hfront p hp]
    rfl
  obtain ⟨p, rest, rfl⟩ := List.exists_cons_of_ne_nil hne
  have hsds := hback p List.mem_cons_self
  have hany : (front ++ p :: rest).any isSdsPart = true :=
    List.any_eq_true.mpr ⟨p, List.mem_append_right _ List.mem_cons_self, hsds⟩
  have hall : ∀ p ∈ front, decide (p.track = some .botus) = true :=
    fun p hp => decide_eq_true (hfront p hp)
  rw [botusDaysFirst, hparts, hany, if_pos rfl, List.takeWhile_append_of_pos hnot,
    List.takeWhile_cons_of_neg (by rw [hsds]; exact Bool.false_ne_true), List.append_nil,
    List.filter_eq_self.mpr hall]

end Aggregate

end Custody
