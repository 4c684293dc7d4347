import Custody.Config.EnglandAndWales
import Custody.Proofs.Calendar.Advance
import Custody.Proofs.Sorting

/-!
# The fraction in force

The fractions of the early removal scheme may be listed in any order. They are sorted once, when a
configuration is put together, and looked up from the end. The sort is stable, so what the two come
to can be said of the list as it was given: in force is the latest that is effective, and of several
of one date the one that is listed last.

* **`RemovalTerms.find?_sorted_eq_some_iff`**: the sorted list is searched for the entry in force.
* **`InForce.of_not_inSpan`**: outside its span an entry may be left out or changed.
* **`Config.removalFraction?_inForce`**: the fraction that a configuration has for a date.
-/

namespace Custody

open Custody.Calendar

variable {fractions fractions' before after : List EffectiveFraction} {date : Date}
  {e f : EffectiveFraction}

/-! ## In the order in which they come into force -/

namespace EffectiveFraction

theorem effectiveFrom_trans (a b c : EffectiveFraction) :
    decide (a.effectiveFrom ≤ b.effectiveFrom) → decide (b.effectiveFrom ≤ c.effectiveFrom) →
      decide (a.effectiveFrom ≤ c.effectiveFrom) := by
  simp only [decide_eq_true_eq]
  exact Std.le_trans

theorem effectiveFrom_total (a b : EffectiveFraction) :
    decide (a.effectiveFrom ≤ b.effectiveFrom) || decide (b.effectiveFrom ≤ a.effectiveFrom) := by
  simp only [Bool.or_eq_true, decide_eq_true_eq]
  exact Std.le_total

end EffectiveFraction

/-- Those effective from one date are sorted to stand as they were listed. -/
theorem RemovalTerms.filter_sorted (terms : RemovalTerms) (date : Date) :
    terms.sorted.fractions.filter (·.effectiveFrom = date)
      = terms.fractions.filter (·.effectiveFrom = date) := by
  have hlevel (xs : List EffectiveFraction) :
      Sorting.level (fun a b => decide (a.effectiveFrom ≤ b.effectiveFrom)) ⟨date, 0⟩ xs
        = xs.filter (·.effectiveFrom = date) := by
    refine List.filter_congr fun f _ => ?_
    rw [Bool.eq_iff_iff, Bool.and_eq_true, decide_eq_true_iff, decide_eq_true_iff,
      decide_eq_true_iff]
    exact ⟨fun h => Std.le_antisymm h.2 h.1, fun h => ⟨h ▸ Std.le_refl _, h ▸ Std.le_refl _⟩⟩
  rw [← hlevel, ← hlevel]
  exact Sorting.level_mergeSort EffectiveFraction.effectiveFrom_trans
    EffectiveFraction.effectiveFrom_total _ _

/-! ## In force -/

/-- The entry in force on a date: of those effective by then it is of the latest date, and of those
of its date it is listed last. -/
structure InForce (fractions : List EffectiveFraction) (date : Date) (e : EffectiveFraction) :
    Prop where
  effective : e.effectiveFrom ≤ date
  latest : ∀ f ∈ fractions, f.effectiveFrom ≤ date → f.effectiveFrom ≤ e.effectiveFrom
  lastListed : (fractions.filter (·.effectiveFrom = e.effectiveFrom)).getLast? = some e

instance (fractions : List EffectiveFraction) (date : Date) (e : EffectiveFraction) :
    Decidable (InForce fractions date e) :=
  decidable_of_iff
    (e.effectiveFrom ≤ date
      ∧ (∀ f ∈ fractions, f.effectiveFrom ≤ date → f.effectiveFrom ≤ e.effectiveFrom)
      ∧ (fractions.filter (·.effectiveFrom = e.effectiveFrom)).getLast? = some e)
    ⟨fun ⟨heffective, hlatest, hlast⟩ => ⟨heffective, hlatest, hlast⟩,
      fun ⟨heffective, hlatest, hlast⟩ => ⟨heffective, hlatest, hlast⟩⟩

namespace InForce

theorem mem (h : InForce fractions date e) : e ∈ fractions :=
  List.mem_of_mem_filter (List.mem_of_getLast? h.lastListed)

/-- At most one entry is in force. -/
theorem unique (he : InForce fractions date e) (hf : InForce fractions date f) : e = f := by
  have hdate : e.effectiveFrom = f.effectiveFrom :=
    Std.le_antisymm (hf.latest e he.mem he.effective) (he.latest f hf.mem hf.effective)
  have hlast := he.lastListed
  rw [hdate, hf.lastListed] at hlast
  exact (Option.some.inj hlast).symm

/-- Which entry is in force does not depend on how those of different dates are interleaved. -/
theorem of_filter_eq (h : InForce fractions date e)
    (heq : ∀ d, fractions.filter (·.effectiveFrom = d) = fractions'.filter (·.effectiveFrom = d)) :
    InForce fractions' date e where
  effective := h.effective
  latest f hf := by
    have hmem : f ∈ fractions'.filter (·.effectiveFrom = f.effectiveFrom) :=
      List.mem_filter.mpr ⟨hf, decide_eq_true rfl⟩
    rw [← heq] at hmem
    exact h.latest f (List.mem_of_mem_filter hmem)
  lastListed := by rw [← heq, h.lastListed]

end InForce

/-! ## The span of an entry -/

/-- A date lies in the span of what is effective from `start` and is listed between others, if it is
effective by then and nothing has taken its place: no later entry, and none of its own date that is
listed behind it. -/
structure InSpan (before : List EffectiveFraction) (start : Date) (after : List EffectiveFraction)
    (date : Date) : Prop where
  effective : start ≤ date
  later : ∀ f ∈ before, start < f.effectiveFrom → date < f.effectiveFrom
  behind : ∀ f ∈ after, start ≤ f.effectiveFrom → date < f.effectiveFrom

instance (before : List EffectiveFraction) (start : Date) (after : List EffectiveFraction)
    (date : Date) : Decidable (InSpan before start after date) :=
  decidable_of_iff
    (start ≤ date ∧ (∀ f ∈ before, start < f.effectiveFrom → date < f.effectiveFrom)
      ∧ ∀ f ∈ after, start ≤ f.effectiveFrom → date < f.effectiveFrom)
    ⟨fun ⟨heffective, hlater, hbehind⟩ => ⟨heffective, hlater, hbehind⟩,
      fun ⟨heffective, hlater, hbehind⟩ => ⟨heffective, hlater, hbehind⟩⟩

/-- Within its span an entry is in force. -/
theorem InSpan.inForce (h : InSpan before e.effectiveFrom after date) :
    InForce (before ++ e :: after) date e where
  effective := h.effective
  latest f hf hle := by
    refine Classical.byContradiction fun hlater => ?_
    rw [Date.not_le] at hlater
    rcases List.mem_append.mp hf with hbefore | hafter
    · exact Date.not_le.mpr (h.later f hbefore hlater) hle
    · rcases List.mem_cons.mp hafter with rfl | hafter
      · exact Date.not_le.mpr hlater (Std.le_refl _)
      · exact Date.not_le.mpr (h.behind f hafter (Int.le_of_lt hlater)) hle
  lastListed := by
    -- with one of its date behind it, it would be past its span
    have hnone : after.filter (·.effectiveFrom = e.effectiveFrom) = [] :=
      List.filter_eq_nil_iff.mpr fun f hf hdate => by
        have hdate := of_decide_eq_true hdate
        have hlater := h.behind f hf (hdate ▸ Std.le_refl _)
        exact Date.not_le.mpr (hdate ▸ hlater) h.effective
    rw [List.filter_append, List.filter_cons_of_pos (by simp), hnone]
    exact List.getLast?_concat

/-- Past its span something has taken the place of an entry. -/
theorem exists_of_not_inSpan {start : Date} (h : ¬ InSpan before start after date)
    (heffective : start ≤ date) :
    (∃ f ∈ before, start < f.effectiveFrom ∧ f.effectiveFrom ≤ date)
      ∨ ∃ f ∈ after, start ≤ f.effectiveFrom ∧ f.effectiveFrom ≤ date := by
  refine Classical.byContradiction fun hnone =>
    h ⟨heffective, fun f hf hlater => ?_, fun f hf hle => ?_⟩
  · exact Date.not_le.mp fun hdate => hnone (.inl ⟨f, hf, hlater, hdate⟩)
  · exact Date.not_le.mp fun hdate => hnone (.inr ⟨f, hf, hle, hdate⟩)

/-- **Outside its span an entry may be left out or changed**: whatever of its date is listed in its
place, the same entry is in force. -/
theorem InForce.of_not_inSpan {start : Date} {es es' : List EffectiveFraction}
    (h : InForce (before ++ es ++ after) date e) (hspan : ¬ InSpan before start after date)
    (hes : ∀ f ∈ es, f.effectiveFrom = start) (hes' : ∀ f ∈ es', f.effectiveFrom = start) :
    InForce (before ++ es' ++ after) date e where
  effective := h.effective
  latest f hf hle := by
    rw [List.mem_append, List.mem_append] at hf
    obtain (hbefore | hplace) | hafter := hf
    · exact h.latest f (by simp [hbefore]) hle
    · rw [hes' f hplace] at hle ⊢
      rcases exists_of_not_inSpan hspan hle with ⟨g, hg, hlt, hdate⟩ | ⟨g, hg, hge, hdate⟩
      · exact Std.le_trans (Int.le_of_lt hlt) (h.latest g (by simp [hg]) hdate)
      · exact Std.le_trans hge (h.latest g (by simp [hg]) hdate)
    · exact h.latest f (by simp [hafter]) hle
  lastListed := by
    have hlast := h.lastListed
    rw [List.filter_append] at hlast ⊢
    by_cases hstart : e.effectiveFrom = start
    · -- it is of the date that may be changed, so it is listed behind what may be changed
      have hbehind : after.filter (·.effectiveFrom = e.effectiveFrom) ≠ [] := by
        rcases exists_of_not_inSpan hspan (hstart ▸ h.effective) with
          ⟨g, hg, hlt, hdate⟩ | ⟨g, hg, hge, hdate⟩
        · exact absurd (hstart ▸ h.latest g (by simp [hg]) hdate) (Date.not_le.mpr hlt)
        · have hsame : g.effectiveFrom = e.effectiveFrom :=
            Std.le_antisymm (h.latest g (by simp [hg]) hdate) (hstart ▸ hge)
          exact List.ne_nil_of_mem (List.mem_filter.mpr ⟨hg, decide_eq_true hsame⟩)
      rw [List.getLast?_append_of_ne_nil _ hbehind] at hlast ⊢
      exact hlast
    · have hnone {xs : List EffectiveFraction} (hxs : ∀ f ∈ xs, f.effectiveFrom = start) :
          xs.filter (·.effectiveFrom = e.effectiveFrom) = [] :=
        List.filter_eq_nil_iff.mpr fun f hf hdate =>
          hstart ((of_decide_eq_true hdate).symm.trans (hxs f hf))
      rw [List.filter_append, hnone hes] at hlast
      rw [List.filter_append, hnone hes']
      exact hlast

/-! ## The lookup -/

namespace RemovalTerms

variable {terms : RemovalTerms}

theorem fractionOn?_eq_none_iff :
    terms.fractionOn? date = none ↔ ∀ f ∈ terms.fractions, date < f.effectiveFrom := by
  simp only [fractionOn?, Option.map_eq_none_iff, List.find?_eq_none, List.mem_reverse,
    decide_eq_true_eq, Date.le_iff, Date.lt_iff, not_le]

/-- A fraction that is found is one of those listed. -/
theorem exists_mem_of_fractionOn? {m : Decimal} (h : terms.fractionOn? date = some m) :
    ∃ e ∈ terms.fractions, e.fraction = m := by
  obtain ⟨e, he, hm⟩ := Option.map_eq_some_iff.mp h
  exact ⟨e, List.mem_reverse.mp (List.mem_of_find?_eq_some he), hm⟩

/-- What is found in the sorted list is in force: what was passed over comes into force later. -/
theorem inForce_of_find?_sorted
    (h : terms.sorted.fractions.reverse.find? (·.effectiveFrom ≤ date) = some e) :
    InForce terms.fractions date e := by
  obtain ⟨heffective, passed, rest, hreverse, hpassed⟩ := List.find?_eq_some_iff_append.mp h
  have hsplit : terms.sorted.fractions = rest.reverse ++ e :: passed.reverse := by
    rw [← List.reverse_reverse terms.sorted.fractions, hreverse]
    simp
  have hsorted : terms.sorted.fractions.Pairwise
      fun a b => decide (a.effectiveFrom ≤ b.effectiveFrom) :=
    List.pairwise_mergeSort EffectiveFraction.effectiveFrom_trans
      EffectiveFraction.effectiveFrom_total _
  rw [hsplit, List.pairwise_append] at hsorted
  -- those passed over are not in effect, and those in front take effect no later
  have hspan : InSpan rest.reverse e.effectiveFrom passed.reverse date := by
    refine ⟨of_decide_eq_true heffective, fun f hf hlater => ?_, fun f hf _ => ?_⟩
    · have hle := of_decide_eq_true (hsorted.2.2 f hf e List.mem_cons_self)
      exact absurd hle (Date.not_le.mpr hlater)
    · simpa [Date.not_le] using hpassed f (List.mem_reverse.mp hf)
  exact (hsplit ▸ hspan.inForce).of_filter_eq terms.filter_sorted

/-- **The sorted list is searched for the entry in force.** -/
theorem find?_sorted_eq_some_iff :
    terms.sorted.fractions.reverse.find? (·.effectiveFrom ≤ date) = some e
      ↔ InForce terms.fractions date e := by
  refine ⟨inForce_of_find?_sorted, fun h => ?_⟩
  have hfound : (terms.sorted.fractions.reverse.find? (·.effectiveFrom ≤ date)).isSome :=
    List.find?_isSome.mpr
      ⟨e, List.mem_reverse.mpr (List.mem_mergeSort.mpr h.mem), decide_eq_true h.effective⟩
  obtain ⟨f, hf⟩ := Option.isSome_iff_exists.mp hfound
  rw [hf, (inForce_of_find?_sorted hf).unique h]

end RemovalTerms

/-! ## The fraction of a configuration -/

namespace Config

/-- The fraction that a configuration has for a date if it is put together with these fractions. -/
def removalFraction? (parts : Config) (fractions : List EffectiveFraction) (date : Date) :
    Option Decimal :=
  (ofParts { parts with ersed := { parts.ersed with fractions } }).ersed.fractionOn? date

variable {parts : Config}

theorem removalFraction?_eq_none_iff :
    parts.removalFraction? fractions date = none ↔ ∀ e ∈ fractions, date < e.effectiveFrom := by
  rw [removalFraction?, RemovalTerms.fractionOn?_eq_none_iff]
  exact forall_congr' fun e => imp_congr_left List.mem_mergeSort

theorem removalFraction?_eq_some_iff {m : Decimal} :
    parts.removalFraction? fractions date = some m
      ↔ ∃ e, InForce fractions date e ∧ e.fraction = m := by
  rw [removalFraction?, RemovalTerms.fractionOn?, Option.map_eq_some_iff]
  exact exists_congr fun e => and_congr_left fun _ => RemovalTerms.find?_sorted_eq_some_iff

/-- The fraction follows from which entry is in force. -/
theorem removalFraction?_congr
    (h : ∀ e, InForce fractions date e ↔ InForce fractions' date e) :
    parts.removalFraction? fractions date = parts.removalFraction? fractions' date := by
  apply Option.ext
  intro m
  rw [removalFraction?_eq_some_iff, removalFraction?_eq_some_iff]
  exact exists_congr fun e => and_congr_left fun _ => h e

theorem removalFraction?_eq_of_filter_eq
    (h : ∀ d, fractions.filter (·.effectiveFrom = d) = fractions'.filter (·.effectiveFrom = d)) :
    parts.removalFraction? fractions date = parts.removalFraction? fractions' date :=
  removalFraction?_congr fun _ =>
    ⟨fun he => he.of_filter_eq h, fun he => he.of_filter_eq fun d => (h d).symm⟩

/-- Neighbours of different dates may change places. -/
theorem removalFraction?_swap (h : e.effectiveFrom ≠ f.effectiveFrom) :
    parts.removalFraction? (before ++ f :: e :: after) date
      = parts.removalFraction? (before ++ e :: f :: after) date := by
  apply removalFraction?_eq_of_filter_eq
  intro d
  rw [List.filter_append, List.filter_append]
  congr 1
  by_cases he : e.effectiveFrom = d
  · have hf : f.effectiveFrom ≠ d := fun hf => h (he.trans hf.symm)
    simp [he, hf]
  · simp [List.filter_cons, he]

/-- **The fraction for a date is that of the entry in force**, in whatever order the entries are
listed, and there is none only before all of them. The order does not matter but among entries of
one date, and an entry has a say only within its span. -/
theorem removalFraction?_inForce (parts : Config) (fractions : List EffectiveFraction)
    (date : Date) :
    (parts.removalFraction? fractions date = none ↔ ∀ e ∈ fractions, date < e.effectiveFrom)
      ∧ (∀ m, parts.removalFraction? fractions date = some m
        ↔ ∃ e, InForce fractions date e ∧ e.fraction = m)
      ∧ (∀ fractions', fractions.Perm fractions' → (fractions.map (·.effectiveFrom)).Nodup →
        parts.removalFraction? fractions' date = parts.removalFraction? fractions date)
      ∧ (∀ before e f after, fractions = before ++ e :: f :: after →
        e.effectiveFrom ≠ f.effectiveFrom →
        parts.removalFraction? (before ++ f :: e :: after) date
          = parts.removalFraction? fractions date)
      ∧ ∀ before e after, fractions = before ++ e :: after →
        (InSpan before e.effectiveFrom after date →
          parts.removalFraction? fractions date = some e.fraction)
        ∧ (¬ InSpan before e.effectiveFrom after date →
          ∀ es : List EffectiveFraction, (∀ f ∈ es, f.effectiveFrom = e.effectiveFrom) →
            parts.removalFraction? (before ++ es ++ after) date
              = parts.removalFraction? fractions date) := by
  refine ⟨removalFraction?_eq_none_iff, fun m => removalFraction?_eq_some_iff,
    fun fractions' hperm hnodup => ?_, ?_, ?_⟩
  · exact (removalFraction?_eq_of_filter_eq (Sorting.filter_key_eq_of_perm hperm hnodup)).symm
  · rintro before e f after rfl hne
    exact removalFraction?_swap hne
  · rintro before e after rfl
    refine ⟨fun hspan => removalFraction?_eq_some_iff.mpr ⟨e, hspan.inForce, rfl⟩,
      fun hspan es hes => removalFraction?_congr fun g => ?_⟩
    -- past its span the entry may give way to others of its date, and they to it
    have hone : before ++ e :: after = before ++ [e] ++ after := by simp
    have hself : ∀ f ∈ [e], f.effectiveFrom = e.effectiveFrom := fun f hf =>
      congrArg _ (List.mem_singleton.mp hf)
    rw [hone]
    exact ⟨fun hg => hg.of_not_inSpan hspan hes hself, fun hg => hg.of_not_inSpan hspan hself hes⟩

/-- Two fifths for sentences passed from August 2020 on. -/
def twoFifths : EffectiveFraction := ⟨EnglandAndWales.on 2020 8 3, ⟨4, 1⟩⟩

/-- A half for sentences passed from June 2022 on. -/
def half : EffectiveFraction := ⟨EnglandAndWales.on 2022 6 1, ⟨5, 1⟩⟩

/-- Three fifths for sentences passed from the same day on. -/
def threeFifths : EffectiveFraction := ⟨EnglandAndWales.on 2022 6 1, ⟨6, 1⟩⟩

/-- Of two fractions of one date the last that is listed holds from the day on, also if neighbours
of different dates change places or the other is left out. -/
theorem removalFraction?_inForce_listedTwice :
    EnglandAndWales.config.removalFraction? [half, twoFifths, threeFifths]
        (EnglandAndWales.on 2020 8 2) = none
      ∧ EnglandAndWales.config.removalFraction? [half, twoFifths, threeFifths]
        (EnglandAndWales.on 2022 5 31) = some ⟨4, 1⟩
      ∧ EnglandAndWales.config.removalFraction? [half, twoFifths, threeFifths]
        (EnglandAndWales.on 2022 6 1) = some ⟨6, 1⟩
      ∧ EnglandAndWales.config.removalFraction? [half, threeFifths, twoFifths]
        (EnglandAndWales.on 2022 6 1) = some ⟨6, 1⟩
      ∧ EnglandAndWales.config.removalFraction? [twoFifths, threeFifths]
        (EnglandAndWales.on 2022 6 1) = some ⟨6, 1⟩
      ∧ EnglandAndWales.config.removalFraction? [threeFifths, twoFifths]
        (EnglandAndWales.on 2022 6 1) = some ⟨6, 1⟩ := by
  have hnone := (removalFraction?_inForce EnglandAndWales.config [half, twoFifths, threeFifths]
    (EnglandAndWales.on 2020 8 2)).1
  obtain ⟨-, hsome, -⟩ := removalFraction?_inForce EnglandAndWales.config
    [half, twoFifths, threeFifths] (EnglandAndWales.on 2022 5 31)
  obtain ⟨-, -, -, hswap, hspan⟩ := removalFraction?_inForce EnglandAndWales.config
    [half, twoFifths, threeFifths] (EnglandAndWales.on 2022 6 1)
  obtain ⟨-, -, hperm, -⟩ := removalFraction?_inForce EnglandAndWales.config
    [twoFifths, threeFifths] (EnglandAndWales.on 2022 6 1)
  have hlast := (hspan [half, twoFifths] threeFifths [] rfl).1 (by decide)
  have hwithout := (hspan [] half [twoFifths, threeFifths] rfl).2 (by decide) [] (by decide)
  have hreordered := hperm [threeFifths, twoFifths] (by decide) (by decide)
  exact ⟨hnone.mpr (by decide), (hsome ⟨4, 1⟩).mpr ⟨twoFifths, by decide, rfl⟩, hlast,
    (hswap [half] twoFifths threeFifths [] rfl (by decide)).trans hlast, hwithout.trans hlast,
    hreordered.trans (hwithout.trans hlast)⟩

end Config

end Custody
