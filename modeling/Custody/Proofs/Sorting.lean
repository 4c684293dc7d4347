import Mathlib.Data.List.Sort

/-!
# Stable sorting

A list is sorted here by an order that is total but may hold two different elements for equal. What
such a sort leaves to say is that it is stable: the elements that the order cannot tell from one of
them, its *level*, keep the order that they had. The level lists decide the sorted list.

* **`mergeSort_eq_insertionSort`**: the sort as putting one element in its place after the other.
* **`mergeSort_eq_of_level_eq`**: lists with the same levels are sorted alike.
* **`mergeSort_parted`**: a sorted list that has been taken apart is sorted back.
* **`filter_key_eq_of_perm`**: a key that is not repeated says where its element goes.
-/

namespace Custody.Sorting

variable {α : Type} {le : α → α → Bool} {xs ys : List α} {a b : α}

/-! ## By insertion -/

/-- An element goes behind all that it may not stand before. -/
theorem orderedInsert_append {before rest : List α} (h : ∀ b ∈ before, le a b = false) :
    (before ++ rest).orderedInsert (fun a b => le a b) a
      = before ++ rest.orderedInsert (fun a b => le a b) a := by
  induction before with
  | nil => rfl
  | cons b before ih =>
    rw [List.forall_mem_cons] at h
    rw [List.cons_append, List.orderedInsert_cons, if_neg (by simp [h.1]), ih h.2]
    rfl

variable (htrans : ∀ a b c, le a b → le b c → le a c) (htotal : ∀ a b, le a b || le b a)

include htrans htotal

/-- For a total order the two ways of sorting give the same list, since both are stable. -/
theorem mergeSort_eq_insertionSort (xs : List α) :
    xs.mergeSort le = xs.insertionSort fun a b => le a b := by
  induction xs with
  | nil => rw [List.mergeSort_nil, List.insertionSort_nil]
  | cons a xs ih =>
    -- the new element stands behind those that may not be after it, and before all others
    obtain ⟨before, rest, hcons, hxs, hbefore⟩ := List.mergeSort_cons htrans htotal a xs
    have hsorted := List.pairwise_mergeSort htrans htotal (a :: xs)
    rw [hcons, List.pairwise_append, List.pairwise_cons] at hsorted
    rw [List.insertionSort_cons, ← ih, hxs, hcons,
      orderedInsert_append fun b hb => by simpa using hbefore b hb]
    cases rest with
    | nil => rfl
    | cons c rest =>
      have hac := hsorted.2.1.1 c List.mem_cons_self
      rw [List.orderedInsert_cons, if_pos hac]

omit htrans htotal

/-! ## By levels -/

/-- The elements that the order cannot tell from one of them, in the order of the list. -/
def level (le : α → α → Bool) (a : α) (xs : List α) : List α :=
  xs.filter fun b => le a b && le b a

theorem mem_level : b ∈ level le a xs ↔ b ∈ xs ∧ le a b = true ∧ le b a = true := by
  simp [level]

/-- A list of elements that are all kept or all left out is one of its two parts. -/
theorem filter_append_filter_not {keep : α → Bool} (h : ∀ b ∈ xs, ∀ c ∈ xs, keep b = keep c) :
    xs.filter keep ++ xs.filter (!keep ·) = xs := by
  cases xs with
  | nil => rfl
  | cons b rest =>
    have hsame : ∀ c ∈ b :: rest, keep c = keep b := fun c hc => h c hc b List.mem_cons_self
    -- all are kept or none is
    cases hb : keep b with
    | true =>
      rw [List.filter_eq_self.mpr fun c hc => (hsame c hc).trans hb,
        List.filter_eq_nil_iff.mpr fun c hc => by simp [hsame c hc, hb], List.append_nil]
    | false =>
      rw [List.filter_eq_nil_iff.mpr fun c hc => by simp [hsame c hc, hb],
        List.filter_eq_self.mpr fun c hc => by simp [hsame c hc, hb], List.nil_append]

include htrans htotal

/-- **The sort is stable.** -/
theorem level_mergeSort (a : α) (xs : List α) : level le a (xs.mergeSort le) = level le a xs := by
  have hsorted : (level le a xs).Pairwise fun b c => le b c := by
    rw [List.pairwise_iff_forall_sublist]
    intro b c hbc
    have hb := hbc.subset List.mem_cons_self
    have hc := hbc.subset (List.mem_cons_of_mem b List.mem_cons_self)
    exact htrans b a c (mem_level.mp hb).2.2 (mem_level.mp hc).2.1
  have hsub : List.Sublist (level le a xs) (xs.mergeSort le) :=
    List.sublist_mergeSort htrans htotal hsorted List.filter_sublist
  -- a level of the level is the level itself, so it is all of that of the sorted list
  have hlevel : List.Sublist (level le a xs) (level le a (xs.mergeSort le)) := by
    have hfilter := hsub.filter fun b => le a b && le b a
    simpa only [level, List.filter_filter, Bool.and_self] using hfilter
  have hlength := ((List.mergeSort_perm xs le).filter fun b => le a b && le b a).length_eq
  exact (hlevel.eq_of_length hlength.symm).symm

omit htrans

/-- Sorted lists with the same levels are equal. -/
theorem eq_of_level_eq (hxs : xs.Pairwise fun a b => le a b) (hys : ys.Pairwise fun a b => le a b)
    (h : ∀ a, level le a xs = level le a ys) : xs = ys := by
  have hself (a : α) : le a a = true := by simpa using htotal a a
  have hmem {a : α} {zs : List α} : a ∈ level le a zs ↔ a ∈ zs := by
    simp [mem_level, hself]
  induction xs generalizing ys with
  | nil =>
    cases ys with
    | nil => rfl
    | cons b ys =>
      have hb := hmem.mpr (List.mem_cons_self (a := b) (l := ys))
      rw [← h b] at hb
      cases hb
  | cons a xs ih =>
    cases ys with
    | nil =>
      have ha := hmem.mpr (List.mem_cons_self (a := a) (l := xs))
      rw [h a] at ha
      cases ha
    | cons b ys =>
      -- each of the first two is in the other list, so they are of one level, and first in it
      have hab : le a b = true := by
        have hb := hmem.mpr (List.mem_cons_self (a := b) (l := ys))
        rw [← h b, hmem] at hb
        rcases List.mem_cons.mp hb with rfl | hb
        · exact hself b
        · exact (List.pairwise_cons.mp hxs).1 b hb
      have hba : le b a = true := by
        have ha := hmem.mpr (List.mem_cons_self (a := a) (l := xs))
        rw [h a, hmem] at ha
        rcases List.mem_cons.mp ha with rfl | ha
        · exact hself a
        · exact (List.pairwise_cons.mp hys).1 a ha
      have hfirst := h a
      unfold level at hfirst
      rw [List.filter_cons_of_pos (by simp [hself]), List.filter_cons_of_pos (by simp [hab, hba])]
        at hfirst
      obtain rfl := (List.cons.inj hfirst).1
      rw [ih (List.pairwise_cons.mp hxs).2 (List.pairwise_cons.mp hys).2]
      intro c
      have hc := h c
      unfold level at hc ⊢
      rw [List.filter_cons, List.filter_cons] at hc
      split at hc
      · exact (List.cons.inj hc).2
      · exact hc

include htrans

/-- **Lists with the same levels are sorted alike.** -/
theorem mergeSort_eq_of_level_eq (h : ∀ a, level le a xs = level le a ys) :
    xs.mergeSort le = ys.mergeSort le := by
  apply eq_of_level_eq htotal (List.pairwise_mergeSort htrans htotal xs)
    (List.pairwise_mergeSort htrans htotal ys)
  intro a
  rw [level_mergeSort htrans htotal, level_mergeSort htrans htotal, h a]

/-- **A sorted list that has been taken apart is sorted back**, if no level is torn apart. -/
theorem mergeSort_parted (keep : α → Bool) (hsorted : xs.Pairwise fun a b => le a b)
    (hkeep : ∀ b ∈ xs, ∀ c ∈ xs, le b c → le c b → keep b = keep c) :
    (xs.filter keep ++ xs.filter (!keep ·)).mergeSort le = xs := by
  apply eq_of_level_eq htotal (List.pairwise_mergeSort htrans htotal _) hsorted
  intro a
  have hlevel (q : α → Bool) : level le a (xs.filter q) = (level le a xs).filter q :=
    List.filter_comm _ _ xs
  rw [level_mergeSort htrans htotal, level, List.filter_append]
  change level le a (xs.filter keep) ++ level le a (xs.filter (!keep ·)) = _
  -- within one level all are on the same side, so the level stays in its order
  rw [hlevel, hlevel]
  refine filter_append_filter_not fun b hb c hc => ?_
  obtain ⟨hb, hab, hba⟩ := mem_level.mp hb
  obtain ⟨hc, hac, hca⟩ := mem_level.mp hc
  exact hkeep b hb c hc (htrans b a c hba hac) (htrans c a b hca hab)

/-! ## By keys -/

omit htrans htotal

variable {β κ : Type} [DecidableEq κ] {key : α → κ}

/-- Where keys are not repeated a list has at most one element of a key, in whatever order it is. -/
theorem filter_key_eq_of_perm (hperm : xs.Perm ys) (hnodup : (xs.map key).Nodup) (k : κ) :
    xs.filter (key · = k) = ys.filter (key · = k) := by
  have hfilter := hperm.filter (key · = k)
  have hlength : (xs.filter (key · = k)).length ≤ 1 := by
    have hcount := List.nodup_iff_count_le_one.mp hnodup k
    rw [List.count, List.countP_map, List.countP_eq_length_filter] at hcount
    exact hcount
  -- there is at most one of this key, so there is nothing to reorder
  match hxs : xs.filter (key · = k), hlength with
  | [], _ =>
    rw [hxs] at hfilter
    exact hfilter.nil_eq
  | [a], _ =>
    rw [hxs] at hfilter
    exact (List.perm_singleton.mp hfilter.symm).symm

/-- Lists that each have the key of what they come from are kept or left out as a whole. -/
theorem filter_key_flatMap {f : α → List β} {key' : β → κ} (hkey : ∀ x, ∀ y ∈ f x, key' y = key x)
    (xs : List α) (k : κ) :
    (xs.flatMap f).filter (key' · = k) = (xs.filter (key · = k)).flatMap f := by
  induction xs with
  | nil => rfl
  | cons x xs ih =>
    rw [List.flatMap_cons, List.filter_append, ih, List.filter_cons]
    by_cases hx : key x = k
    · have hall : (f x).filter (key' · = k) = f x :=
        List.filter_eq_self.mpr fun y hy => by simp [hkey x y hy, hx]
      simp [hall, hx]
    · have hnone : (f x).filter (key' · = k) = [] :=
        List.filter_eq_nil_iff.mpr fun y hy => by simp [hkey x y hy, hx]
      simp [hnone, hx]

end Custody.Sorting
