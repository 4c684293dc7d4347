import Custody.Outcome.OfUnits
import Custody.Proofs.Answered
import Custody.Proofs.Calendar.Advance
import Custody.Proofs.Release.InStep

/-!
# The latest date of the units

Of each kind the booking has the latest date that a unit has: some unit has it, and no unit has a
later one. Which unit that is does not matter to the date, so what moves no unit's date later moves
the latest one no later.

* **`latest?_isLatest`**, **`latest?_eq_none_iff`**: the latest date of some kinds.
* **`release?_isLatest`**: the release of the booking is the latest of all releases.
* **`release?_le_of_eased`**: units that are released no later give no later release.
-/

namespace Custody

open Custody.Calendar

variable {units : List UnitCalculation}

/-! ## The later of two -/

namespace Breakdown

theorem later_cases (a b : Breakdown) : a.later b = a ∨ a.later b = b := by
  rw [later]
  split
  · exact .inr rfl
  · exact .inl rfl

theorem day_later (a b : Breakdown) :
    (a.later b).releaseDate.day = max a.releaseDate.day b.releaseDate.day := by
  rw [later]
  split
  · next h => rw [Date.lt_iff] at h; omega
  · next h => rw [Date.lt_iff] at h; omega

end Breakdown

/-! ## The latest of a list -/

namespace Outcome

/-- Folding `later` keeps the first breakdown or takes one of the list, and is before none of
them. -/
theorem foldl_later (bs : List Breakdown) (b : Breakdown) :
    bs.foldl Breakdown.later b ∈ b :: bs
      ∧ ∀ c ∈ b :: bs, c.releaseDate.day ≤ (bs.foldl Breakdown.later b).releaseDate.day := by
  induction bs generalizing b with
  | nil => simp
  | cons d bs ih =>
    -- the fold goes on from the later of the first two, which is one of them and before neither
    obtain ⟨hmem, hle⟩ := ih (b.later d)
    rw [List.foldl_cons]
    have hday := Breakdown.day_later b d
    have hlater := hle (b.later d) List.mem_cons_self
    constructor
    · rcases List.mem_cons.mp hmem with h | h
      · rw [h]
        rcases Breakdown.later_cases b d with h | h
        · rw [h]
          exact List.mem_cons_self
        · rw [h]
          exact List.mem_cons_of_mem b List.mem_cons_self
      · exact List.mem_cons_of_mem b (List.mem_cons_of_mem d h)
    · intro c hc
      rcases List.mem_cons.mp hc with rfl | hc
      · omega
      · rcases List.mem_cons.mp hc with rfl | hc
        · omega
        · exact hle c (List.mem_cons_of_mem _ hc)

theorem latestOf?_eq_some {bs : List Breakdown} {b : Breakdown} (h : latestOf? bs = some b) :
    b ∈ bs ∧ ∀ c ∈ bs, c.releaseDate.day ≤ b.releaseDate.day := by
  cases bs with
  | nil => cases h
  | cons d bs =>
    cases h
    exact foldl_later bs d

theorem latestOf?_eq_none_iff {bs : List Breakdown} : latestOf? bs = none ↔ bs = [] := by
  cases bs <;> simp [latestOf?]

end Outcome

/-! ## The latest of the units

The units keep their dates in step with their breakdowns, so the latest breakdown is read as a date
of a unit. -/

namespace UnitCalculation

/-- The date of the first of some kinds that the unit has. -/
def dateAmong? (kinds : List DateKind) (c : UnitCalculation) : Option Date :=
  kinds.findSome? c.date?

@[simp] theorem dateAmong?_singleton (kind : DateKind) (c : UnitCalculation) :
    c.dateAmong? [kind] = c.date? kind := by
  rw [dateAmong?, List.findSome?_singleton]

theorem InStep.map_breakdownAmong? {c : UnitCalculation} (h : c.InStep) (kinds : List DateKind) :
    (c.breakdownAmong? kinds).map Breakdown.releaseDate = c.dateAmong? kinds := by
  rw [breakdownAmong?, dateAmong?, List.map_findSome?]
  exact congrArg (kinds.findSome? ·) (funext fun kind => (h kind).symm)

end UnitCalculation

namespace Outcome

/-- **The latest date of some kinds.** Some unit has it, and no unit has a later one. -/
theorem latest?_isLatest (hunits : ∀ c ∈ units, c.InStep) {kinds : List DateKind} {b : Breakdown}
    (h : latest? kinds units = some b) :
    (∃ c ∈ units, c.dateAmong? kinds = some b.releaseDate)
      ∧ ∀ c ∈ units, ∀ d, c.dateAmong? kinds = some d → d.day ≤ b.releaseDate.day := by
  obtain ⟨hmem, hle⟩ := latestOf?_eq_some h
  constructor
  · obtain ⟨c, hc, hb⟩ := List.mem_filterMap.mp hmem
    refine ⟨c, hc, ?_⟩
    rw [← (hunits c hc).map_breakdownAmong?, hb, Option.map_some]
  · intro c hc d hd
    rw [← (hunits c hc).map_breakdownAmong?, Option.map_eq_some_iff] at hd
    obtain ⟨b', hb', rfl⟩ := hd
    exact hle b' (List.mem_filterMap.mpr ⟨c, hc, hb'⟩)

theorem latest?_eq_none_iff (hunits : ∀ c ∈ units, c.InStep) {kinds : List DateKind} :
    latest? kinds units = none ↔ ∀ c ∈ units, c.dateAmong? kinds = none := by
  rw [latest?, latestOf?_eq_none_iff, List.filterMap_eq_nil_iff]
  refine forall₂_congr fun c hc => ?_
  rw [← (hunits c hc).map_breakdownAmong?, Option.map_eq_none_iff]

/-! ## Release -/

/-- The release is the latest date of its own kind, and that of the other kind is no later. -/
theorem release?_eq_some {kind : DateKind} {b : Breakdown} (h : release? units = some (kind, b)) :
    kind.IsRelease ∧ latest? [kind] units = some b
      ∧ ∀ j : DateKind, j.IsRelease → ∀ b', latest? [j] units = some b' →
        b'.releaseDate.day ≤ b.releaseDate.day := by
  rw [release?] at h
  split at h
  · next crd ard hcrd hard =>
    simp only [Date.lt_iff] at h
    split at h
    · next hlt =>
      cases h
      refine ⟨.inr rfl, hard, ?_⟩
      rintro j (rfl | rfl) b' hb'
      · rw [hcrd] at hb'
        cases hb'
        omega
      · rw [hard] at hb'
        cases hb'
        exact le_rfl
    · next hge =>
      cases h
      refine ⟨.inl rfl, hcrd, ?_⟩
      rintro j (rfl | rfl) b' hb'
      · rw [hcrd] at hb'
        cases hb'
        exact le_rfl
      · rw [hard] at hb'
        cases hb'
        omega
  · next crd hcrd hard =>
    cases h
    refine ⟨.inl rfl, hcrd, ?_⟩
    rintro j (rfl | rfl) b' hb'
    · rw [hcrd] at hb'
      cases hb'
      exact le_rfl
    · rw [hard] at hb'
      cases hb'
  · next ard hcrd hard =>
    cases h
    refine ⟨.inr rfl, hard, ?_⟩
    rintro j (rfl | rfl) b' hb'
    · rw [hcrd] at hb'
      cases hb'
    · rw [hard] at hb'
      cases hb'
      exact le_rfl
  · cases h

/-- **The release of the booking is the latest of all.** A unit has it, and no unit is released
later, on licence or without. -/
theorem release?_isLatest (hunits : ∀ c ∈ units, c.InStep) {kind : DateKind} {b : Breakdown}
    (h : release? units = some (kind, b)) :
    kind.IsRelease ∧ (∃ c ∈ units, c.date? kind = some b.releaseDate)
      ∧ ∀ c ∈ units, ∀ j : DateKind, j.IsRelease → ∀ d, c.date? j = some d →
        d.day ≤ b.releaseDate.day := by
  obtain ⟨hkind, hlatest, hle⟩ := release?_eq_some h
  have hmem := (latest?_isLatest hunits hlatest).1
  simp only [UnitCalculation.dateAmong?_singleton] at hmem
  refine ⟨hkind, hmem, fun c hc j hj d hd => ?_⟩
  rw [← UnitCalculation.dateAmong?_singleton] at hd
  -- the date is no later than the latest of its kind, and that no later than release
  cases hlatest' : latest? [j] units with
  | none =>
    rw [(latest?_eq_none_iff hunits).mp hlatest' c hc] at hd
    cases hd
  | some b' => exact ((latest?_isLatest hunits hlatest').2 c hc d hd).trans (hle j hj b' hlatest')

theorem release?_eq_none_iff (hunits : ∀ c ∈ units, c.InStep) :
    release? units = none ↔ ∀ c ∈ units, ∀ j : DateKind, j.IsRelease → c.date? j = none := by
  -- there is a release as soon as there is one of either kind
  have hnone : release? units = none
      ↔ latest? [.crd] units = none ∧ latest? [.ard] units = none := by
    rw [release?]
    split
    · next hcrd hard => rw [hcrd]; split <;> simp
    · next hcrd hard => rw [hcrd]; simp
    · next hcrd hard => rw [hard]; simp
    · next hcrd hard => rw [hcrd, hard]; simp
  rw [hnone, latest?_eq_none_iff hunits, latest?_eq_none_iff hunits]
  simp only [UnitCalculation.dateAmong?_singleton]
  constructor
  · rintro ⟨hcrd, hard⟩ c hc j (rfl | rfl)
    · exact hcrd c hc
    · exact hard c hc
  · intro h
    exact ⟨fun c hc => h c hc .crd (.inl rfl), fun c hc => h c hc .ard (.inr rfl)⟩

end Outcome

/-! ## Two calculations of the same units -/

/-- A unit is released on the same terms under early release, and no later. -/
def UnitCalculation.Eased (standard early : UnitCalculation) : Prop :=
  ∀ kind : DateKind, kind.IsRelease →
    Option.Rel (fun d e : Date => e.day ≤ d.day) (standard.date? kind) (early.date? kind)

namespace Outcome

variable {units' : List UnitCalculation}

/-- Units that are released no later give no later release. -/
theorem release?_le_of_eased (hunits : ∀ c ∈ units, c.InStep) (hunits' : ∀ c ∈ units', c.InStep)
    (h : List.Forall₂ UnitCalculation.Eased units units') :
    Option.Rel (fun standard early : DateKind × Breakdown =>
      early.2.releaseDate.day ≤ standard.2.releaseDate.day) (release? units) (release? units') := by
  cases hstandard : release? units with
  | none =>
    cases hearly : release? units' with
    | none => exact .none
    | some early =>
      obtain ⟨kind, e⟩ := early
      obtain ⟨hkind, ⟨c', hc', hdate'⟩, _⟩ := release?_isLatest hunits' hearly
      obtain ⟨c, hc, heased⟩ := Answered.exists_of_mem_right h hc'
      have hrel := heased kind hkind
      rw [(release?_eq_none_iff hunits).mp hstandard c hc kind hkind, hdate'] at hrel
      cases hrel
  | some standard =>
    obtain ⟨kind, s⟩ := standard
    obtain ⟨hkind, ⟨c, hc, hdate⟩, hle⟩ := release?_isLatest hunits hstandard
    cases hearly : release? units' with
    | none =>
      obtain ⟨c', hc', heased⟩ := Answered.exists_of_mem_right h.flip hc
      have hrel := heased kind hkind
      rw [(release?_eq_none_iff hunits').mp hearly c' hc' kind hkind, hdate] at hrel
      cases hrel
    | some early =>
      obtain ⟨kind', e⟩ := early
      obtain ⟨hkind', ⟨c', hc', hdate'⟩, _⟩ := release?_isLatest hunits' hearly
      -- the unit that is released last under early release is released no earlier without it
      obtain ⟨c₀, hc₀, heased⟩ := Answered.exists_of_mem_right h hc'
      have hrel := heased kind' hkind'
      rw [hdate'] at hrel
      cases hdate₀ : c₀.date? kind' with
      | none =>
        rw [hdate₀] at hrel
        cases hrel
      | some d =>
        rw [hdate₀] at hrel
        cases hrel with
        | some hed => exact .some (hed.trans (hle c₀ hc₀ kind' hkind' d hdate₀))

end Outcome

end Custody
