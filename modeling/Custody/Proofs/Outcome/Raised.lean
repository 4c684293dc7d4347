import Custody.Proofs.Outcome.Agreement
import Custody.Proofs.Outcome.Order

/-!
# Dates that are put back

Parole and home detention curfew of a booking combine what the units have in two ways. The date is
the latest of all units, each with the date itself or else with its release. The breakdown is that
of the first unit with the latest date of its own, and says how far that date has been put back.
Curfew stays only if it is then still before release.

* **`latestOf?_first`**: of equally late breakdowns the first is kept.
* **`latestRaised?_putBack`**: the date and breakdown of a kind that is put back.
* **`parole_and_curfew_putBack`**: parole and both variants of curfew of a booking.
-/

namespace Custody

open Custody.Calendar

/-! ## The first of the latest -/

namespace Breakdown

/-- A breakdown of a list with the latest date, all before it being earlier. -/
def FirstLatest (bs : List Breakdown) (b : Breakdown) : Prop :=
  ∃ before after, bs = before ++ b :: after
    ∧ (∀ x ∈ before, x.releaseDate.day < b.releaseDate.day)
    ∧ ∀ x ∈ after, x.releaseDate.day ≤ b.releaseDate.day

namespace FirstLatest

variable {bs : List Breakdown} {b c : Breakdown}

theorem singleton (b : Breakdown) : FirstLatest [b] b :=
  ⟨[], [], rfl, by simp, by simp⟩

theorem cons_lt (h : FirstLatest bs b) (hlt : c.releaseDate.day < b.releaseDate.day) :
    FirstLatest (c :: bs) b := by
  obtain ⟨before, after, rfl, hbefore, hafter⟩ := h
  exact ⟨c :: before, after, rfl, List.forall_mem_cons.mpr ⟨hlt, hbefore⟩, hafter⟩

/-- The latest is not before the first of the list. -/
theorem head_le (h : FirstLatest (c :: bs) b) : c.releaseDate.day ≤ b.releaseDate.day := by
  obtain ⟨before, after, heq, hbefore, _⟩ := h
  cases before with
  | nil =>
    cases heq
    exact le_rfl
  | cons x before =>
    cases heq
    exact (hbefore c (.head _)).le

/-- One that is no later than the first of the list changes nothing behind it. -/
theorem insert_le (h : FirstLatest (c :: bs) b) {d : Breakdown}
    (hle : d.releaseDate.day ≤ c.releaseDate.day) : FirstLatest (c :: d :: bs) b := by
  have hhead := h.head_le
  obtain ⟨before, after, heq, hbefore, hafter⟩ := h
  -- the new one comes before the latest, or right behind it
  cases before with
  | nil =>
    cases heq
    exact ⟨[], d :: bs, rfl, by simp, List.forall_mem_cons.mpr ⟨hle, hafter⟩⟩
  | cons x before =>
    cases heq
    have hc := hbefore c (.head _)
    refine ⟨c :: d :: before, after, rfl, ?_, hafter⟩
    rw [List.forall_mem_cons] at hbefore
    exact List.forall_mem_cons.mpr ⟨hc, List.forall_mem_cons.mpr ⟨hle.trans_lt hc, hbefore.2⟩⟩

end FirstLatest

/-- Folding `later` over a list finds the first of the latest. -/
theorem foldl_later_first (bs : List Breakdown) (b : Breakdown) :
    FirstLatest (b :: bs) (bs.foldl later b) := by
  induction bs generalizing b with
  | nil => exact .singleton b
  | cons c bs ih =>
    rw [List.foldl_cons, later]
    split
    · next hlt =>
      rw [Date.lt_iff] at hlt
      exact (ih c).cons_lt (hlt.trans_le (ih c).head_le)
    · next hge =>
      rw [Date.lt_iff, not_lt] at hge
      exact (ih b).insert_le hge

end Breakdown

namespace Outcome

variable {units : List UnitCalculation} {kind : DateKind} {rule : Rule}

theorem latestOf?_first {bs : List Breakdown} {b : Breakdown} (h : latestOf? bs = some b) :
    Breakdown.FirstLatest bs b := by
  cases bs with
  | nil => cases h
  | cons c bs =>
    cases h
    exact Breakdown.foldl_later_first bs c

/-- The breakdown of the first unit with the latest date of a kind. -/
def FirstWithLatest (kind : DateKind) (units : List UnitCalculation) (own : Breakdown) : Prop :=
  ∃ before c after, units = before ++ c :: after ∧ c.breakdowns.get? kind = some own
    ∧ (∀ c' ∈ before, ∀ d, c'.date? kind = some d → d < own.releaseDate)
    ∧ ∀ c' ∈ after, ∀ d, c'.date? kind = some d → d ≤ own.releaseDate

theorem breakdownAmong?_singleton (kind : DateKind) (c : UnitCalculation) :
    c.breakdownAmong? [kind] = c.breakdowns.get? kind := by
  rw [UnitCalculation.breakdownAmong?, List.findSome?_singleton]

/-- **The first of the units with the latest date is kept.** -/
theorem latest?_first (hunits : ∀ c ∈ units, c.InStep) {own : Breakdown}
    (h : latest? [kind] units = some own) : FirstWithLatest kind units own := by
  obtain ⟨before, after, heq, hbefore, hafter⟩ := latestOf?_first h
  simp only [breakdownAmong?_singleton] at heq
  -- the list of breakdowns splits where the list of units does
  obtain ⟨front, back, rfl, rfl, hback⟩ := List.filterMap_eq_append_iff.mp heq
  obtain ⟨skipped, c, rest, rfl, hskipped, hown, rfl⟩ := List.filterMap_eq_cons_iff.mp hback
  have hdate {c' : UnitCalculation} (hc' : c' ∈ front ++ (skipped ++ c :: rest)) {d : Date}
      (hd : c'.date? kind = some d) : ∃ b, c'.breakdowns.get? kind = some b ∧ b.releaseDate = d :=
    Option.map_eq_some_iff.mp (((hunits c' hc').date?_eq kind).symm.trans hd)
  refine ⟨front ++ skipped, c, rest, by rw [List.append_assoc], hown, ?_, ?_⟩
  · intro c' hc' d hd
    rcases List.mem_append.mp hc' with hc' | hc'
    · obtain ⟨b, hb, rfl⟩ := hdate (List.mem_append_left _ hc') hd
      exact Date.lt_iff.mpr (hbefore b (List.mem_filterMap.mpr ⟨c', hc', hb⟩))
    · obtain ⟨b, hb, _⟩ :=
        hdate (List.mem_append_right _ (List.mem_append_left _ hc')) hd
      rw [hskipped c' hc'] at hb
      cases hb
  · intro c' hc' d hd
    have hmem : c' ∈ skipped ++ c :: rest :=
      List.mem_append_right _ (List.mem_cons_of_mem c hc')
    obtain ⟨b, hb, rfl⟩ := hdate (List.mem_append_right _ hmem) hd
    exact Date.le_iff.mpr (hafter b (List.mem_filterMap.mpr ⟨c', hc', hb⟩))

end Outcome

/-! ## Put back to a date -/

namespace Breakdown

/-- What becomes of a breakdown that is put back to a date by a rule. -/
structure PutBackTo (own : Breakdown) (date : Date) (rule : Rule) (b : Breakdown) : Prop where
  releaseDate : b.releaseDate = date
  unadjustedDate : b.unadjustedDate = own.unadjustedDate
  /-- It is the same if the date is. -/
  unmoved : own.releaseDate = date → b = own
  /-- Otherwise the rule is listed once, and accounts for the days between the dates. -/
  moved : own.releaseDate < date →
    b.rules = (if rule ∈ own.rules then own.rules else own.rules ++ [rule])
      ∧ b.ruleAdjustments = own.ruleAdjustments.insert rule (own.releaseDate.daysUntil date)
      ∧ b.adjustedDays = own.unadjustedDate.daysUntil date
  le : own.releaseDate ≤ date

theorem PutBackTo.refl (own : Breakdown) (rule : Rule) :
    own.PutBackTo own.releaseDate rule own where
  releaseDate := rfl
  unadjustedDate := rfl
  unmoved _ := rfl
  moved hlt := absurd (Date.lt_iff.mp hlt) (lt_irrefl _)
  le := Date.le_iff.mpr le_rfl

theorem putBackTo_raisedTo {own : Breakdown} {date : Date} (hlt : own.releaseDate < date)
    (rule : Rule) : own.PutBackTo date rule (own.raisedTo date rule) where
  releaseDate := releaseDate_raisedTo own date rule
  unadjustedDate := by
    unfold raisedTo
    rw [unadjustedDate_withRuleDays]
  unmoved heq := absurd (congrArg Date.day heq) (Date.lt_iff.mp hlt).ne
  moved _ := by
    simp only [raisedTo, withRuleDays, withRule]
    split <;> exact ⟨rfl, rfl, rfl⟩
  le := Date.le_iff.mpr (Date.lt_iff.mp hlt).le

end Breakdown

namespace Outcome

variable {units : List UnitCalculation} {kind : DateKind} {rule : Rule}

/-- The latest of all units, each with a kind of date or else with its release. -/
def latestOrRelease? (kind : DateKind) (units : List UnitCalculation) : Option Date :=
  (units.filterMap (·.dateOrRelease? kind)).max?

/-- **What is put back is on the latest date of all units**, and is a breakdown of the first unit
with the latest date of its own. -/
theorem latestRaised?_putBack (hunits : ∀ c ∈ units, c.InStep) {b : Breakdown}
    (h : latestRaised? kind rule units = some b) :
    latestOrRelease? kind units = some b.releaseDate
      ∧ ∃ own, FirstWithLatest kind units own ∧ own.PutBackTo b.releaseDate rule b := by
  constructor
  · obtain ⟨⟨c, hc, hd⟩, hle⟩ := latestRaised?_isLatest hunits h
    rw [latestOrRelease?, List.max?_eq_some_iff]
    refine ⟨List.mem_filterMap.mpr ⟨c, hc, hd⟩, fun d hmem => ?_⟩
    obtain ⟨c', hc', hd'⟩ := List.mem_filterMap.mp hmem
    exact hle c' hc' d hd'
  · rw [latestRaised?, Option.map_eq_some_iff] at h
    obtain ⟨own, hown, rfl⟩ := h
    refine ⟨own, latest?_first hunits hown, ?_⟩
    -- the first of the latest is kept, and put back if the release is later
    cases concurrentRelease? kind units with
    | none => exact .refl own rule
    | some release =>
      by_cases hlt : own.releaseDate < release
      · show own.PutBackTo (if _ then _ else _ : Breakdown).releaseDate rule (if _ then _ else _)
        rw [if_pos hlt, Breakdown.releaseDate_raisedTo]
        exact Breakdown.putBackTo_raisedTo hlt rule
      · show own.PutBackTo (if _ then _ else _ : Breakdown).releaseDate rule (if _ then _ else _)
        rw [if_neg hlt]
        exact .refl own rule

/-- There is nothing to put back exactly where no unit has the date. -/
theorem latestRaised?_ne_none_iff (hunits : ∀ c ∈ units, c.InStep) (rule : Rule) :
    latestRaised? kind rule units ≠ none ↔ ∃ c ∈ units, c.date? kind ≠ none := by
  rw [latestRaised?, Ne, Option.map_eq_none_iff, latest?_eq_none_iff hunits]
  simp only [UnitCalculation.dateAmong?_singleton, not_forall, exists_prop]

/-! ## The booking -/

variable {o : Outcome}

/-- What the booking has of a kind of date that is put back, and left in on some dates alone. -/
structure PutBack (units : List UnitCalculation) (o : Outcome) (kind : DateKind) (rule : Rule)
    (stays : Date → Prop) : Prop where
  carried : o.date? kind ≠ none
    ↔ (∃ c ∈ units, c.date? kind ≠ none) ∧ ∀ v, latestOrRelease? kind units = some v → stays v
  date : ∀ d, o.date? kind = some d → latestOrRelease? kind units = some d
  breakdown : ∀ d, o.date? kind = some d → ∃ own b, FirstWithLatest kind units own
    ∧ o.breakdown? kind = some b ∧ own.PutBackTo d rule b

/-- What is found of a kind that comes after release is what was recorded of it. -/
theorem breakdown?_ofBreakdowns_of_mem {expiry : Breakdown} {b : Option Breakdown}
    (h : (kind, b) ∈ otherEntries expiry units) :
    (ofBreakdowns expiry units).breakdown? kind = b := by
  have hinStep := (ofBreakdowns_inStep expiry units).date?_eq kind
  rw [date?_ofBreakdowns_of_mem h] at hinStep
  cases b with
  | none => exact Option.map_eq_none_iff.mp hinStep.symm
  | some b =>
    rw [ofBreakdowns_eq, breakdown?_recordAll_of_mem (by rw [map_fst_otherEntries]; decide) h,
      Option.some_or]

/-- A date that is put back is recorded as it is, where it is recorded. -/
theorem putBack_of_entry (hunits : ∀ c ∈ units, c.InStep) {expiry : Breakdown}
    {keeps : Date → Bool} {stays : Date → Prop} (hkeeps : ∀ d, keeps d = true ↔ stays d)
    (hentry : (kind, (latestRaised? kind rule units).filter (keeps ·.releaseDate))
      ∈ otherEntries expiry units)
    (hdate : ∀ k, o.date? k = (ofBreakdowns expiry units).date? k)
    (hbreakdown : ∀ k, o.breakdown? k = (ofBreakdowns expiry units).breakdown? k) :
    PutBack units o kind rule stays := by
  -- a date of this kind is that of the entry, and passed the test
  have hkept {d : Date} (hd : o.date? kind = some d) : ∃ b, latestRaised? kind rule units = some b
      ∧ stays b.releaseDate ∧ o.breakdown? kind = some b ∧ b.releaseDate = d := by
    rw [hdate, date?_ofBreakdowns_of_mem hentry, Option.map_eq_some_iff] at hd
    obtain ⟨b, hfilter, rfl⟩ := hd
    obtain ⟨hb, hkept⟩ := Option.filter_eq_some_iff.mp hfilter
    exact ⟨b, hb, (hkeeps _).mp hkept,
      by rw [hbreakdown, breakdown?_ofBreakdowns_of_mem hentry, hfilter], rfl⟩
  refine ⟨⟨fun hcarried => ?_, fun ⟨hsome, hstays⟩ => ?_⟩, fun d hd => ?_, fun d hd => ?_⟩
  · obtain ⟨d, hd⟩ := Option.ne_none_iff_exists'.mp hcarried
    obtain ⟨b, hb, hstays, _, _⟩ := hkept hd
    refine ⟨(latestRaised?_ne_none_iff hunits rule).mp ?_, fun v hv => ?_⟩
    · rw [hb]
      exact Option.some_ne_none b
    · rw [(latestRaised?_putBack hunits hb).1] at hv
      cases hv
      exact hstays
  · obtain ⟨b, hb⟩ := Option.ne_none_iff_exists'.mp
      ((latestRaised?_ne_none_iff hunits rule).mpr hsome)
    have hkept := (hkeeps _).mpr (hstays _ (latestRaised?_putBack hunits hb).1)
    rw [hdate, date?_ofBreakdowns_of_mem hentry, hb, Option.filter_some, if_pos hkept]
    exact Option.some_ne_none _
  · obtain ⟨b, hb, _, _, rfl⟩ := hkept hd
    exact (latestRaised?_putBack hunits hb).1
  · obtain ⟨b, hb, _, hfound, rfl⟩ := hkept hd
    obtain ⟨own, hfirst, hback⟩ := (latestRaised?_putBack hunits hb).2
    exact ⟨own, b, hfirst, hfound, hback⟩

/-- The booking is released when its units are. -/
theorem releaseDate?_ofUnits (h : ofUnits units = .ok o) :
    o.releaseDate? = (release? units).map (·.2.releaseDate) := by
  rcases (ofUnits_extracted h).release with ⟨hnone, hdates⟩ | ⟨_, b, hr, hreleased⟩
  · rw [hnone, releaseDate?, hdates .crd (.inl rfl), hdates .ard (.inr rfl)]
    rfl
  · rw [hr, hreleased.releaseDate?_eq, Option.map_some]

/-- **Parole and curfew of a booking.** Each is on the latest date of all units, with the date
itself or else with release, and has the breakdown of the first unit with the latest date of its
own, as it is or put back. Parole is there when a unit has it; curfew only if it is also before
release. -/
theorem parole_and_curfew_putBack (hunits : ∀ c ∈ units, c.InStep) (h : ofUnits units = .ok o) :
    (∀ variant : Curfew, PutBack units o variant.kind variant.concurrentRelease
        fun v => ∀ r, o.releaseDate? = some r → v < r)
      ∧ PutBack units o .ped .pedConcurrentRelease fun _ => True := by
  have hrelease := releaseDate?_ofUnits h
  obtain ⟨expiry, hdate, hbreakdown⟩ : ∃ expiry,
      (∀ kind, o.date? kind = (ofBreakdowns expiry units).date? kind)
        ∧ ∀ kind, o.breakdown? kind = (ofBreakdowns expiry units).breakdown? kind := by
    obtain ⟨_, expiry, _, _, _, _, _, _, rfl⟩ := ofUnits_eq_ok.mp h
    exact ⟨expiry, fun _ => rfl, fun _ => rfl⟩
  refine ⟨fun variant => ?_, ?_⟩
  · have hkeeps (d : Date) : (((release? units).map (·.2.releaseDate)).all (d < ·)) = true
        ↔ ∀ r, o.releaseDate? = some r → d < r := by
      rw [hrelease, Option.all_eq_true]
      simp only [decide_eq_true_eq]
    refine putBack_of_entry hunits hkeeps ?_ hdate hbreakdown
    show (_, beforeRelease _ _) ∈ otherEntries expiry units
    cases variant <;> simp [otherEntries]
  · -- parole is recorded whether it is before release or not
    have hkeeps (d : Date) : (fun _ => true : Date → Bool) d = true ↔ True := by simp
    refine putBack_of_entry hunits hkeeps ?_ hdate hbreakdown
    have hall (b : Option Breakdown) : b.filter (fun _ => true) = b := by cases b <;> rfl
    rw [hall]
    exact .head _

end Outcome

/-- A unit of which dates are known and nothing else. -/
def UnitCalculation.ofDates (sentencedAt : Date) (dates : List (DateKind × Date)) :
    UnitCalculation :=
  dates.foldl (fun c entry => c.record entry.1 (Breakdown.of entry.2 entry.2))
    ⟨⟨.replicate 32 ⟨0, by decide⟩⟩, sentencedAt, 0, 0, none, 0, {}, 0, 0, true, .empty, .empty⟩

theorem UnitCalculation.ofDates_inStep (sentencedAt : Date) (dates : List (DateKind × Date)) :
    (ofDates sentencedAt dates).InStep := by
  have hfold (c : UnitCalculation) (hc : c.InStep) :
      (dates.foldl (fun c entry => c.record entry.1 (Breakdown.of entry.2 entry.2)) c).InStep := by
    induction dates generalizing c with
    | nil => exact hc
    | cons entry dates ih => exact ih _ (hc.record entry.1 (Breakdown.of entry.2 entry.2))
  exact hfold _ InStep.empty

namespace Outcome

open EnglandAndWales (on)

/-- A unit with curfew. -/
def withCurfew : UnitCalculation :=
  .ofDates (on 2020 1 6) [(.sled, on 2021 1 5), (.crd, on 2020 6 1), (.hdced, on 2020 3 1)]

/-- A unit without curfew, which is released first, but after the curfew date of the other. -/
def withoutCurfew : UnitCalculation :=
  .ofDates (on 2020 1 6) [(.sled, on 2020 10 1), (.crd, on 2020 5 1)]

/-- Curfew is put back to the release of the unit without it. -/
theorem parole_and_curfew_putBack_withoutCurfew :
    ∃ o, (∀ c ∈ [withCurfew, withoutCurfew], c.InStep)
      ∧ ofUnits [withCurfew, withoutCurfew] = .ok o ∧ o.date? .hdced = some (on 2020 5 1)
      ∧ PutBack [withCurfew, withoutCurfew] o .hdced .hdcedConcurrentRelease
        (fun v => ∀ r, o.releaseDate? = some r → v < r) := by
  have heval : (·.date? .hdced) <$> ofUnits [withCurfew, withoutCurfew]
      = .ok (some (on 2020 5 1)) := by
    decide +kernel
  obtain ⟨o, ho, hdate⟩ := Answered.map_eq_ok.mp heval
  have hunits : ∀ c ∈ [withCurfew, withoutCurfew], c.InStep := by
    rintro c (_ | ⟨_, _ | ⟨_, hc⟩⟩)
    · exact UnitCalculation.ofDates_inStep _ _
    · exact UnitCalculation.ofDates_inStep _ _
    · cases hc
  exact ⟨o, hunits, ho, hdate, (parole_and_curfew_putBack hunits ho).1 .hdced⟩

end Outcome

end Custody
