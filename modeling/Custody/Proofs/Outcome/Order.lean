import Custody.Proofs.Outcome.Reordered
import Custody.Proofs.Unit.Order

/-!
# The order of the dates of a booking

Each date of a booking is the latest of its kind, and the units have their dates in order, so an
order that all units keep is one that the latest dates keep. Parole and curfew are put back to the
release of the units that do not have them, which the booking is not released before.

* **`latest?_le_latest?`**: what all units keep, the latest dates keep.
* **`latestRaised?_isLatest`**: a date that is put back is the latest of all units, each with the
  date or else with its release.
* **`parole_le_release`**, **`licence_lt_expiry`**, **`expiry_lt_supervision`** and others: the
  order of the dates, one pair after the other.
* **`curfew_eq_none`**: which unit decides on curfew.
-/

namespace Custody

open Custody.Calendar

/-! ## Dates of a unit -/

namespace UnitCalculation

variable {c : UnitCalculation}

/-- The date of a kind, or else release. -/
def dateOrRelease? (kind : DateKind) (c : UnitCalculation) : Option Date :=
  (c.date? kind).or c.releaseDate?

theorem dateOrRelease?_of_date {kind : DateKind} {d : Date} (h : c.date? kind = some d) :
    c.dateOrRelease? kind = some d := by
  rw [dateOrRelease?, h, Option.some_or]

theorem dateOrRelease?_of_none {kind : DateKind} (h : c.date? kind = none) :
    c.dateOrRelease? kind = c.releaseDate? := by
  rw [dateOrRelease?, h, Option.none_or]

theorem releaseDate?_eq_some {d : Date} (h : c.releaseDate? = some d) :
    ∃ kind : DateKind, kind.IsRelease ∧ c.date? kind = some d := by
  unfold releaseDate? at h
  cases hcrd : c.date? .crd with
  | none =>
    rw [hcrd] at h
    exact ⟨.ard, .inr rfl, h⟩
  | some crd =>
    rw [hcrd] at h
    exact ⟨.crd, .inl rfl, hcrd.trans h⟩

theorem dateAmong?_expiry (c : UnitCalculation) : c.dateAmong? [.sled, .sed] = c.expiryDate? := by
  rw [dateAmong?, List.findSome?_cons, List.findSome?_singleton, expiryDate?]
  cases c.date? .sled <;> rfl

/-- Without a licence that ends apart, the licence ends with the sentence. -/
theorem dateAmong?_licence (h : c.date? .led = none) :
    c.dateAmong? [.sled, .led] = c.date? .sled := by
  rw [dateAmong?, List.findSome?_cons, List.findSome?_singleton, h]
  cases c.date? .sled <;> rfl

end UnitCalculation

namespace Outcome

variable {units : List UnitCalculation}

/-! ## Latest dates -/

/-- **What all units keep, the latest dates keep.** -/
theorem latest?_le_latest? (hunits : ∀ c ∈ units, c.InStep) {kinds kinds' : List DateKind}
    (h : ∀ c ∈ units, ∀ d, c.dateAmong? kinds = some d →
      ∃ d', c.dateAmong? kinds' = some d' ∧ d.day ≤ d'.day)
    {b : Breakdown} (hb : latest? kinds units = some b) :
    ∃ b', latest? kinds' units = some b' ∧ b.releaseDate.day ≤ b'.releaseDate.day := by
  obtain ⟨c, hc, hdate⟩ := (latest?_isLatest hunits hb).1
  obtain ⟨d', hd', hle⟩ := h c hc b.releaseDate hdate
  cases hb' : latest? kinds' units with
  | none =>
    rw [(latest?_eq_none_iff hunits).mp hb' c hc] at hd'
    cases hd'
  | some b' => exact ⟨b', rfl, hle.trans ((latest?_isLatest hunits hb').2 c hc d' hd')⟩

theorem concurrentRelease?_eq_some {kind : DateKind} {r : Date}
    (h : concurrentRelease? kind units = some r) :
    (∃ c ∈ units, c.date? kind = none ∧ c.releaseDate? = some r)
      ∧ ∀ c ∈ units, c.date? kind = none → ∀ d, c.releaseDate? = some d → d.day ≤ r.day := by
  unfold concurrentRelease? at h
  rw [List.max?_eq_some_iff] at h
  simp only [List.mem_filterMap, List.mem_filter, Option.isNone_iff_eq_none] at h
  obtain ⟨⟨c, ⟨hc, hnone⟩, hr⟩, hle⟩ := h
  exact ⟨⟨c, hc, hnone, hr⟩, fun c hc hnone d hd => hle d ⟨c, ⟨hc, hnone⟩, hd⟩⟩

theorem concurrentRelease?_eq_none {kind : DateKind} (h : concurrentRelease? kind units = none) :
    ∀ c ∈ units, c.date? kind = none → c.releaseDate? = none := by
  unfold concurrentRelease? at h
  rw [List.max?_eq_none_iff, List.filterMap_eq_nil_iff] at h
  intro c hc hnone
  exact h c (List.mem_filter.mpr ⟨hc, by rw [hnone]; rfl⟩)

/-- A date that is put back is the latest of its kind, or the release that it is put back to. -/
theorem latestRaised?_cases {kind : DateKind} {rule : Rule} {b : Breakdown}
    (h : latestRaised? kind rule units = some b) :
    ∃ latest, latest? [kind] units = some latest
      ∧ (concurrentRelease? kind units = none ∧ b.releaseDate = latest.releaseDate
        ∨ ∃ r, concurrentRelease? kind units = some r
          ∧ (b.releaseDate = r ∨ b.releaseDate = latest.releaseDate)
          ∧ b.releaseDate.day = max latest.releaseDate.day r.day) := by
  have hmap := map_latestRaised? kind rule units
  rw [h, Option.map_some] at hmap
  obtain ⟨d, hd, hb⟩ := Option.map_eq_some_iff.mp hmap.symm
  obtain ⟨latest, hlatest, rfl⟩ := Option.map_eq_some_iff.mp hd
  refine ⟨latest, hlatest, ?_⟩
  -- put back to the release of the units that are without it, if later
  rw [← hb]
  cases concurrentRelease? kind units with
  | none => exact .inl ⟨rfl, rfl⟩
  | some r =>
    refine .inr ⟨r, rfl, ?_⟩
    unfold notBefore
    simp only [Date.lt_iff]
    split
    · exact ⟨.inl rfl, by omega⟩
    · exact ⟨.inr rfl, by omega⟩

/-- **A date that is put back is the latest of all units**, each with the date itself or else with
its release. -/
theorem latestRaised?_isLatest (hunits : ∀ c ∈ units, c.InStep) {kind : DateKind} {rule : Rule}
    {b : Breakdown} (h : latestRaised? kind rule units = some b) :
    (∃ c ∈ units, c.dateOrRelease? kind = some b.releaseDate)
      ∧ ∀ c ∈ units, ∀ d, c.dateOrRelease? kind = some d → d.day ≤ b.releaseDate.day := by
  obtain ⟨latest, hlatest, hcases⟩ := latestRaised?_cases h
  have hisLatest := latest?_isLatest hunits hlatest
  simp only [UnitCalculation.dateAmong?_singleton] at hisLatest
  obtain ⟨⟨c, hc, hdate⟩, hle⟩ := hisLatest
  replace hdate := UnitCalculation.dateOrRelease?_of_date hdate
  constructor
  · rcases hcases with ⟨_, hb⟩ | ⟨r, hr, hb | hb, _⟩
    · exact ⟨c, hc, hb ▸ hdate⟩
    · obtain ⟨⟨c', hc', hnone, hrelease⟩, _⟩ := concurrentRelease?_eq_some hr
      exact ⟨c', hc', hb ▸ (UnitCalculation.dateOrRelease?_of_none hnone).trans hrelease⟩
    · exact ⟨c, hc, hb ▸ hdate⟩
  · intro c' hc' d hd
    cases hkind : c'.date? kind with
    | some d' =>
      -- the unit has the date itself
      rw [UnitCalculation.dateOrRelease?_of_date hkind] at hd
      have hbefore := hle c' hc' d (hkind.trans hd)
      rcases hcases with ⟨_, hb⟩ | ⟨r, _, _, hday⟩
      · rwa [hb]
      · omega
    | none =>
      rw [UnitCalculation.dateOrRelease?_of_none hkind] at hd
      rcases hcases with ⟨hnone, _⟩ | ⟨r, hr, _, hday⟩
      · rw [concurrentRelease?_eq_none hnone c' hc' hkind] at hd
        cases hd
      · have hbefore := (concurrentRelease?_eq_some hr).2 c' hc' hkind d hd
        omega

/-! ## The order of the dates -/

variable {o : Outcome}

/-- The dates of an outcome are those recorded after an expiry. -/
theorem date?_ofUnits (h : ofUnits units = .ok o) :
    ∃ expiry, latest? [.sled, .sed] units = some expiry
      ∧ o.expiryDate? = some expiry.releaseDate
      ∧ ∀ kind, o.date? kind = (ofBreakdowns expiry units).date? kind := by
  obtain ⟨_, expiry, _, _, _, hexpiry, _, _, rfl⟩ := ofUnits_eq_ok.mp h
  exact ⟨expiry, hexpiry, expiryDate?_ofBreakdowns expiry units, fun _ => rfl⟩

/-- Expiry is recorded with the licence if that ends on the same date, and otherwise next to it. -/
theorem recordExpiry_cases (o : Outcome) (expiry : Breakdown) (licence : Option Breakdown) :
    o.recordExpiry expiry licence = o.record .sled expiry
      ∨ licence = none ∧ o.recordExpiry expiry licence = o.record .sed expiry
      ∨ ∃ l, licence = some l ∧ l.releaseDate ≠ expiry.releaseDate
        ∧ o.recordExpiry expiry licence = (o.record .sed expiry).record .led l := by
  unfold recordExpiry
  cases licence with
  | none => exact .inr (.inl ⟨rfl, rfl⟩)
  | some l =>
    by_cases hsame : l.releaseDate = expiry.releaseDate
    · exact .inl (if_pos hsame)
    · exact .inr (.inr ⟨l, rfl, hsame, if_neg hsame⟩)

/-- The sentence expires on one date, with the licence or on its own. -/
theorem one_expiry (h : ofUnits units = .ok o) : o.date? .sled = none ↔ o.date? .sed ≠ none := by
  obtain ⟨expiry, _, _, hdate⟩ := date?_ofUnits h
  rw [hdate, hdate, date?_ofBreakdowns_expiry _ _ (by decide),
    date?_ofBreakdowns_expiry _ _ (by decide)]
  rcases recordExpiry_cases empty expiry (latest? [.sled, .led] units)
    with hrecord | ⟨_, hrecord⟩ | ⟨l, _, _, hrecord⟩ <;> simp [hrecord]

/-- **A licence that ends apart ends before the sentence**, if no unit has one that does. -/
theorem licence_lt_expiry (hunits : ∀ c ∈ units, c.InStep)
    (hled : ∀ c ∈ units, c.date? .led = none) (h : ofUnits units = .ok o) {d : Date}
    (hd : o.date? .led = some d) : ∃ x, o.date? .sed = some x ∧ d.day < x.day := by
  obtain ⟨expiry, hexpiry, _, hdate⟩ := date?_ofUnits h
  rw [hdate, date?_ofBreakdowns_expiry _ _ (by decide)] at hd
  rw [hdate, date?_ofBreakdowns_expiry _ _ (by decide)]
  rcases recordExpiry_cases empty expiry (latest? [.sled, .led] units)
    with hrecord | ⟨_, hrecord⟩ | ⟨l, hlicence, hne, hrecord⟩
  · rw [hrecord] at hd
    cases hd
  · rw [hrecord] at hd
    cases hd
  · rw [hrecord] at hd ⊢
    cases hd
    refine ⟨expiry.releaseDate, rfl, ?_⟩
    -- each unit with a licence expires with it, so the last one expires no earlier
    have hwith : ∀ c ∈ units, ∀ d, c.dateAmong? [.sled, .led] = some d →
        ∃ d', c.dateAmong? [.sled, .sed] = some d' ∧ d.day ≤ d'.day := by
      intro c hc d hd
      rw [UnitCalculation.dateAmong?_licence (hled c hc)] at hd
      rw [UnitCalculation.dateAmong?_expiry, UnitCalculation.expiryDate?, hd]
      exact ⟨d, rfl, le_rfl⟩
    obtain ⟨x, hx, hle⟩ := latest?_le_latest? hunits hwith hlicence
    rw [hexpiry] at hx
    cases hx
    have hday : l.releaseDate.day ≠ expiry.releaseDate.day := fun heq => hne (Date.ext heq)
    omega

/-- No unit is released after the booking. -/
theorem le_releaseDate (hunits : ∀ c ∈ units, c.InStep) (h : ofUnits units = .ok o)
    {c : UnitCalculation} (hc : c ∈ units) {d : Date} (hd : c.releaseDate? = some d) :
    ∃ r, o.releaseDate? = some r ∧ d.day ≤ r.day := by
  obtain ⟨kind, hkind, hdate⟩ := UnitCalculation.releaseDate?_eq_some hd
  rcases (ofUnits_extracted h).release with ⟨hnone, _⟩ | ⟨j, r, hr, hreleased⟩
  · rw [(release?_eq_none_iff hunits).mp hnone c hc kind hkind] at hdate
    cases hdate
  · exact ⟨r.releaseDate, hreleased.releaseDate?_eq,
      (release?_isLatest hunits hr).2.2 c hc kind hkind d hdate⟩

/-- **Parole is not after release**, if that is so of the units. -/
theorem parole_le_release (hunits : ∀ c ∈ units, c.InStep) (hinOrder : ∀ c ∈ units, c.InOrder)
    (h : ofUnits units = .ok o) {d : Date} (hd : o.date? .ped = some d) :
    ∃ r, o.releaseDate? = some r ∧ d.day ≤ r.day := by
  obtain ⟨expiry, _, _, hdate⟩ := date?_ofUnits h
  rw [hdate, date?_ofBreakdowns_of_mem (.head _)] at hd
  obtain ⟨b, hb, rfl⟩ := Option.map_eq_some_iff.mp hd
  obtain ⟨⟨c, hc, hlatest⟩, _⟩ := latestRaised?_isLatest hunits hb
  -- the unit is considered for parole on the date, or it is released then
  cases hped : c.date? .ped with
  | none =>
    rw [UnitCalculation.dateOrRelease?_of_none hped] at hlatest
    exact le_releaseDate hunits h hc hlatest
  | some parole =>
    rw [UnitCalculation.dateOrRelease?_of_date hped] at hlatest
    cases hlatest
    obtain ⟨r, hr, hle⟩ := (hinOrder c hc).parole _ hped
    obtain ⟨r', hr', hle'⟩ := le_releaseDate hunits h hc hr
    exact ⟨r', hr', hle.trans hle'⟩

/-- **Release after a recall is not after expiry**, if that is so of the units. -/
theorem afterRecall_le_expiry (hunits : ∀ c ∈ units, c.InStep)
    (hinOrder : ∀ c ∈ units, c.InOrder) (h : ofUnits units = .ok o) {d : Date}
    (hd : o.date? .prrd = some d) : ∃ x, o.expiryDate? = some x ∧ d.day ≤ x.day := by
  obtain ⟨expiry, hexpiry, hexpiryDate, hdate⟩ := date?_ofUnits h
  rw [hdate, date?_ofBreakdowns_of_mem (b := latest? [.prrd] units) (by simp [otherEntries])] at hd
  obtain ⟨b, hb, rfl⟩ := Option.map_eq_some_iff.mp hd
  -- a unit is released after recall no later than it expires
  have hbefore : ∀ c ∈ units, ∀ d, c.dateAmong? [.prrd] = some d →
      ∃ d', c.dateAmong? [.sled, .sed] = some d' ∧ d.day ≤ d'.day := by
    intro c hc d hd
    rw [UnitCalculation.dateAmong?_singleton] at hd
    rw [UnitCalculation.dateAmong?_expiry]
    exact (hinOrder c hc).afterRecall d hd
  obtain ⟨x, hx, hle⟩ := latest?_le_latest? hunits hbefore hb
  rw [hexpiry] at hx
  cases hx
  exact ⟨expiry.releaseDate, hexpiryDate, hle⟩

/-- **Top-up supervision ends after the sentence.** -/
theorem expiry_lt_supervision (h : ofUnits units = .ok o) {d : Date}
    (hd : o.date? .tused = some d) : ∃ x, o.expiryDate? = some x ∧ x.day < d.day := by
  obtain ⟨expiry, _, hexpiryDate, hdate⟩ := date?_ofUnits h
  rw [hdate, date?_ofBreakdowns_of_mem (.tail _ (.tail _ (.tail _ (.tail _ (.head _)))))] at hd
  obtain ⟨b, hb, rfl⟩ := Option.map_eq_some_iff.mp hd
  obtain ⟨_, hlt⟩ := Option.filter_eq_some_iff.mp hb
  rw [decide_eq_true_eq, Date.lt_iff] at hlt
  exact ⟨expiry.releaseDate, hexpiryDate, hlt⟩

/-! ## Curfew -/

/-- Curfew is the latest of the units put back to release, and before the release of the booking. -/
theorem exists_latestRaised? (h : ofUnits units = .ok o) {variant : Curfew} {d : Date}
    (hd : o.date? variant.kind = some d) :
    ∃ b, latestRaised? variant.kind variant.concurrentRelease units = some b
      ∧ b.releaseDate = d ∧ ∀ r, release? units = some r → d.day < r.2.releaseDate.day := by
  obtain ⟨expiry, _, _, hdate⟩ := date?_ofUnits h
  have hentry : (variant.kind, beforeRelease ((release? units).map (·.2.releaseDate))
      (latestRaised? variant.kind variant.concurrentRelease units))
        ∈ otherEntries expiry units := by
    cases variant <;> simp [otherEntries]
  rw [hdate, date?_ofBreakdowns_of_mem hentry] at hd
  obtain ⟨b, hb, rfl⟩ := Option.map_eq_some_iff.mp hd
  obtain ⟨hraised, hlt⟩ := beforeRelease_eq_some hb
  exact ⟨b, hraised, rfl, fun r hr => hlt _ (by rw [hr, Option.map_some])⟩

/-- **Curfew goes where the unit that is released last does not have it.** It is put back to the
release of the booking, and is not before it any more. -/
theorem curfew_eq_none (hunits : ∀ c ∈ units, c.InStep) (h : ofUnits units = .ok o)
    {r : DateKind × Breakdown} (hrelease : release? units = some r)
    {c : UnitCalculation} (hc : c ∈ units) (hr : c.releaseDate? = some r.2.releaseDate)
    {variant : Curfew} (hnone : c.date? variant.kind = none) : o.date? variant.kind = none := by
  by_contra hdate
  obtain ⟨d, hd⟩ := Option.ne_none_iff_exists'.mp hdate
  obtain ⟨b, hb, rfl, hlt⟩ := exists_latestRaised? h hd
  have hbefore := hlt r hrelease
  have hle := (latestRaised?_isLatest hunits hb).2 c hc r.2.releaseDate
    ((UnitCalculation.dateOrRelease?_of_none hnone).trans hr)
  omega

/-- Curfew of a booking is not before that of any unit. -/
theorem le_curfew (hunits : ∀ c ∈ units, c.InStep) (h : ofUnits units = .ok o)
    {c : UnitCalculation} (hc : c ∈ units) {variant : Curfew} {d e : Date}
    (hd : c.date? variant.kind = some d) (he : o.date? variant.kind = some e) : d.day ≤ e.day := by
  obtain ⟨b, hb, rfl, _⟩ := exists_latestRaised? h he
  exact (latestRaised?_isLatest hunits hb).2 c hc d (UnitCalculation.dateOrRelease?_of_date hd)

/-! ## All dates -/

/-- The dates of a booking in order, those that it has. -/
structure DatesInOrder (o : Outcome) : Prop where
  /-- The sentence expires on one date, with the licence or on its own. -/
  oneExpiry : o.date? .sled = none ↔ o.date? .sed ≠ none
  licence : ∀ d, o.date? .led = some d → ∃ x, o.date? .sed = some x ∧ d < x
  oneRelease : o.date? .crd = none ∨ o.date? .ard = none
  parole : ∀ d, o.date? .ped = some d → ∃ r, o.releaseDate? = some r ∧ d ≤ r
  afterRecall : ∀ d, o.date? .prrd = some d → ∃ x, o.expiryDate? = some x ∧ d ≤ x
  /-- Curfew and removal are before release. -/
  eligibility : ∀ kind : DateKind, kind.IsEligibility → ∀ d, o.date? kind = some d →
    ∃ r, o.releaseDate? = some r ∧ d < r
  supervision : ∀ d, o.date? .tused = some d → ∃ x, o.expiryDate? = some x ∧ x < d

end Outcome

end Custody
