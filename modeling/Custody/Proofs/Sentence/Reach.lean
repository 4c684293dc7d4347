import Custody.Proofs.Calendar.Reach
import Custody.Proofs.Sentence.Contiguity
import Custody.Proofs.Sentence.Resubmitted
import Custody.Proofs.Total

/-!
# Sentences within reach

How long a sentence can be is bounded by the counts of its terms, and the parts of a chain add up.
A sentence that is passed in the years 1 to 9999 and can span ten million days at most
(`Sentence.InReach`) is laid out within the supported range, wherever its parts come to start.

* **`Term.mostDays`**, **`Sentence.mostDays`**: the most days that a sentence can span.
* **`Sentence.aggregate_failsBy`**: a sentence within reach is laid out.
* **`Sentence.aggregate_bounds`**: when, and over how many days.
-/

namespace Custody

open Custody.Calendar Custody.Answered

variable {fails : Failure → Prop}

/-! ## Single sentences -/

namespace Term

/-- The most days that a term can span, custody and licence together. -/
def mostDays : Term → Int
  | .standard s => s.duration.mostDays
  | .extended custodial licence => custodial.mostDays + licence.mostDays
  | .botus duration => duration.mostDays

theorem mostDays_nonneg (t : Term) : 0 ≤ t.mostDays := by
  cases t with
  | standard s => exact s.duration.mostDays_nonneg
  | extended custodial licence =>
    exact Int.add_nonneg custodial.mostDays_nonneg licence.mostDays_nonneg
  | botus duration => exact duration.mostDays_nonneg

theorem ends_failsBy {t : Term} {start : Date} (hlow : -90000000 ≤ start.day)
    (hhigh : start.day + t.mostDays ≤ 90000000) : FailsBy fails (t.ends start) := by
  cases t with
  | standard s => simp [ends, Duration.endDate_failsBy hlow hhigh]
  | botus duration => simp [ends, Duration.endDate_failsBy hlow hhigh]
  | extended custodial licence =>
    have hlicence := licence.mostDays_nonneg
    simp only [mostDays] at hhigh
    have hcustody : FailsBy fails (custodial.endDate start) :=
      Duration.endDate_failsBy hlow (by omega)
    simp only [ends, failsBy_bind, hcustody, failsBy_pure, implies_true, and_true, true_and]
    intro custodialEnd hend
    -- licence starts where custody ends, within what is left of the most days
    have hle := Duration.day_le_of_endDate hend
    have hmost := Duration.day_le_add_mostDays hend
    exact Duration.endDate_failsBy (by omega) (by omega)

theorem finish_le {t : Term} {start : Date} {ends : Date × Date} (h : t.ends start = .ok ends) :
    ends.2.day ≤ start.day + t.mostDays := by
  cases t with
  | standard s =>
    simp only [Term.ends, bind_eq_ok, pure_eq_ok] at h
    obtain ⟨finish, hfinish, rfl⟩ := h
    exact Duration.day_le_add_mostDays hfinish
  | botus duration =>
    simp only [Term.ends, bind_eq_ok, pure_eq_ok] at h
    obtain ⟨finish, hfinish, rfl⟩ := h
    exact Duration.day_le_add_mostDays hfinish
  | extended custodial licence =>
    simp only [Term.ends, bind_eq_ok, pure_eq_ok] at h
    obtain ⟨custodialEnd, hcustody, finish, hfinish, rfl⟩ := h
    have hfirst := Duration.day_le_add_mostDays hcustody
    have hsecond := Duration.day_le_add_mostDays hfinish
    simp only [mostDays]
    omega

end Term

/-- The most days that a sentence can span. -/
def Single.mostDays (s : Single) : Int := s.term.mostDays

theorem Single.mostDays_nonneg (s : Single) : 0 ≤ s.mostDays := s.term.mostDays_nonneg

namespace Sentence

/-! ## Components -/

/-- The most days that the components of a sentence can span together. -/
def mostDays (s : Sentence) : Int := totalOf Single.mostDays s.singles

theorem layOut_failsBy {start : Date} {components : List Sentence}
    (hflat : ∀ part ∈ components, part.isChain = false) (hlow : -90000000 ≤ start.day)
    (hhigh : start.day + totalOf Single.mostDays (components.filterMap single?) ≤ 90000000) :
    FailsBy fails (layOut start components) := by
  -- each part starts where the one before it ends, so the sum moves with the start
  induction components generalizing start with
  | nil => simp [layOut]
  | cons component rest ih =>
    rw [List.forall_mem_cons] at hflat
    cases component with
    | chain => cases hflat.1
    | single s =>
      change start.day + (s.term.mostDays + totalOf Single.mostDays (rest.filterMap single?))
        ≤ 90000000 at hhigh
      have hrest : 0 ≤ totalOf Single.mostDays (rest.filterMap single?) :=
        totalOf_nonneg fun s _ => s.mostDays_nonneg
      have hpart : FailsBy fails (s.servedFrom start) := by
        simp [Single.servedFrom, Term.ends_failsBy hlow (t := s.term) (by omega)]
      have hnext : ∀ part, s.servedFrom start = .ok part →
          FailsBy fails (layOut part.finish rest) := by
        intro part hpart
        obtain ⟨ends, hends, rfl⟩ := Single.servedFrom_eq_ok.mp hpart
        have hle := Term.ends_le hends
        have hmost := Term.finish_le hends
        exact ih hflat.2 (by simp only; omega) (by simp only; omega)
      simp only [layOut, single?, orFail, failsBy_bind, failsBy_ok, failsBy_pure,
        implies_true, and_true, true_and]
      rintro _ ⟨⟩
      exact ⟨hpart, hnext⟩

theorem finish_le_of_layOut {start : Date} {components : List Sentence} {laid : List Part × Date}
    (h : layOut start components = .ok laid) :
    laid.2.day ≤ start.day + totalOf Single.mostDays (components.filterMap single?) := by
  induction components generalizing start laid with
  | nil =>
    cases h
    simp
  | cons s rest ih =>
    obtain ⟨single, part, laid', hsingle, hpart, hlaid, rfl⟩ := layOut_cons_eq_ok.mp h
    obtain ⟨ends, hends, rfl⟩ := Single.servedFrom_eq_ok.mp hpart
    have hfinish := Term.finish_le hends
    -- the rest starts where this part finishes
    have hrest := ih hlaid
    rw [List.filterMap_cons_some hsingle, totalOf_cons, Single.mostDays]
    simp only at hrest ⊢
    omega

/-! ## The whole -/

/-- A sentence that has components, none of them a chain, all passed in the years 1 to 9999, which
can span ten million days together at most. -/
structure InReach (s : Sentence) : Prop where
  components_ne_nil : s.components ≠ []
  flat : ∀ part ∈ s.components, part.isChain = false
  inYears : ∀ t ∈ s.singles, t.sentencedAt.InYears
  mostDays_le : s.mostDays ≤ 10000000

/-- Sentences that are not chains are begun when one of them was passed. -/
theorem exists_earliestOf? {parts : List Sentence} (hne : parts ≠ [])
    (hflat : ∀ part ∈ parts, part.isChain = false) :
    ∃ t ∈ parts.filterMap single?, earliestOf? parts = some t.sentencedAt := by
  induction parts with
  | nil => exact absurd rfl hne
  | cons part rest ih =>
    rw [List.forall_mem_cons] at hflat
    cases part with
    | chain => cases hflat.1
    | single s =>
      have hmem : s ∈ (single s :: rest).filterMap single? := List.mem_cons_self
      by_cases hrest : rest = []
      · exact ⟨s, hmem, by rw [hrest]; rfl⟩
      · obtain ⟨t, ht, hearliest⟩ := ih hrest hflat.2
        rw [earliestOf?, hearliest, sentencedAt?, earlier?]
        -- the earlier of two dates is one of them
        rcases Std.min_eq_or (a := s.sentencedAt) (b := t.sentencedAt) with hmin | hmin
        · exact ⟨s, hmem, by rw [hmin]⟩
        · exact ⟨t, List.mem_cons_of_mem s ht, by rw [hmin]⟩

namespace InReach

variable {s : Sentence} {a : Aggregate}

/-- Tracks do not matter. -/
theorem of_untracked_eq {s' : Sentence} (h : s.InReach) (hsame : s.untracked = s'.untracked) :
    s'.InReach := by
  have hcomponents : s'.components.map untracked = s.components.map untracked := by
    rw [← components_untracked, ← hsame, components_untracked]
  -- shape, dates and terms can be read off without the tracks
  have hsingles : s'.singles.map Single.untracked = s.singles.map Single.untracked := by
    rw [← singles_untracked, ← hsame, singles_untracked]
  refine ⟨fun hnil => h.components_ne_nil ?_, fun part hpart => ?_, fun t ht => ?_, ?_⟩
  · rwa [hnil, List.map_nil, eq_comm, List.map_eq_nil_iff] at hcomponents
  · have hmem := List.mem_map_of_mem (f := untracked) hpart
    rw [hcomponents, List.mem_map] at hmem
    obtain ⟨part', hpart', heq⟩ := hmem
    rw [← isChain_untracked, ← heq, isChain_untracked]
    exact h.flat part' hpart'
  · have hmem := List.mem_map_of_mem (f := Single.untracked) ht
    rw [hsingles, List.mem_map] at hmem
    obtain ⟨t', ht', heq⟩ := hmem
    have hdate : t'.sentencedAt = t.sentencedAt := (congrArg Single.sentencedAt heq :)
    exact hdate ▸ h.inYears t' ht'
  · have hdays (ts : List Single) :
        totalOf Single.mostDays ts = totalOf Single.mostDays (ts.map Single.untracked) := by
      rw [totalOf_map]
      rfl
    have hle := h.mostDays_le
    rwa [mostDays, hdays, ← hsingles, ← hdays] at hle

theorem exists_sentencedAt (h : s.InReach) :
    ∃ d : Date, s.sentencedAt? = some d ∧ 0 ≤ d.day ∧ d.day ≤ 4000000 := by
  have hsome : ∃ t ∈ s.singles, s.sentencedAt? = some t.sentencedAt := by
    cases s with
    | single s => exact ⟨s, List.mem_cons_self, rfl⟩
    | chain parts track => exact exists_earliestOf? h.components_ne_nil h.flat
  obtain ⟨t, ht, hdate⟩ := hsome
  exact ⟨t.sentencedAt, hdate, (h.inYears t ht).day_bounds⟩

/-- **A sentence within reach is laid out.** -/
theorem aggregate_failsBy (h : s.InReach) : FailsBy fails s.aggregate := by
  obtain ⟨d, hdate, hlow, hhigh⟩ := h.exists_sentencedAt
  have hmost := h.mostDays_le
  rw [mostDays, singles] at hmost
  have hlayOut : FailsBy fails (layOut d s.components) :=
    layOut_failsBy h.flat (by omega) (by omega)
  have hempty : s.components.isEmpty = false := List.isEmpty_eq_false_iff.mpr h.components_ne_nil
  simp [aggregate, hempty, hdate, orFail, hlayOut]

/-- It starts in the years 1 to 9999, and does not take longer than it can. -/
theorem aggregate_bounds (h : s.InReach) (ha : s.aggregate = .ok a) :
    (0 ≤ a.sentencedAt.day ∧ a.sentencedAt.day ≤ 4000000)
      ∧ 0 ≤ a.totalDays ∧ a.totalDays ≤ 10000000 := by
  obtain ⟨d, hdate, hbounds⟩ := h.exists_sentencedAt
  obtain ⟨hsentenced, hlaid⟩ := aggregate_eq_ok.mp ha
  rw [hdate] at hsentenced
  cases hsentenced
  have hfinish : a.finish.day ≤ _ := finish_le_of_layOut hlaid
  have hday := (aggregate_contiguous ha).day_le
  have hmost := h.mostDays_le
  rw [mostDays, singles] at hmost
  simp only [Aggregate.totalDays, Date.daysUntil]
  omega

end InReach

end Sentence

end Custody
