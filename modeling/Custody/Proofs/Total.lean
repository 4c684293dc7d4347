import Custody.Count
import Mathlib.Data.List.Perm.Basic

/-!
# Totals

A total of what is never negative is not negative, and some of a list never come to more than all of
it, in whatever order.

* **`totalOf_nonneg`**, **`totalOf_eq_zero`**: totals of measures that are all alike.
* **`totalOf_le_of_subperm`**: the total of some of a list.
-/

namespace Custody

variable {α : Type} {measure : α → Int} {xs ys : List α}

theorem totalOf_nonneg (h : ∀ x ∈ xs, 0 ≤ measure x) : 0 ≤ totalOf measure xs := by
  induction xs with
  | nil => exact Int.le_refl _
  | cons x xs ih =>
    rw [totalOf_cons]
    have hx := h x List.mem_cons_self
    have hxs := ih fun y hy => h y (List.mem_cons_of_mem x hy)
    omega

theorem totalOf_eq_zero (h : ∀ x ∈ xs, measure x = 0) : totalOf measure xs = 0 := by
  induction xs with
  | nil => rfl
  | cons x xs ih =>
    rw [List.forall_mem_cons] at h
    rw [totalOf_cons, h.1, ih h.2, Int.add_zero]

theorem totalOf_map {β : Type} {f : β → α} {zs : List β} :
    totalOf measure (zs.map f) = totalOf (fun z => measure (f z)) zs := by
  induction zs with
  | nil => rfl
  | cons z zs ih => rw [List.map_cons, totalOf_cons, totalOf_cons, ih]

theorem totalOf_flatMap {β : Type} {f : β → List α} {zs : List β} :
    totalOf measure (zs.flatMap f) = totalOf (fun z => totalOf measure (f z)) zs := by
  induction zs with
  | nil => rfl
  | cons z zs ih => rw [List.flatMap_cons, totalOf_append, totalOf_cons, ih]

theorem totalOf_congr {measure' : α → Int} (h : ∀ x ∈ xs, measure x = measure' x) :
    totalOf measure xs = totalOf measure' xs := by
  induction xs with
  | nil => rfl
  | cons x xs ih =>
    rw [List.forall_mem_cons] at h
    rw [totalOf_cons, totalOf_cons, h.1, ih h.2]

theorem totalOf_perm (h : xs.Perm ys) : totalOf measure xs = totalOf measure ys := by
  induction h with
  | nil => rfl
  | cons x _ ih => rw [totalOf_cons, totalOf_cons, ih]
  | swap x y zs =>
    simp only [totalOf_cons]
    omega
  | trans _ _ ih ih' => exact ih.trans ih'

theorem totalOf_le_of_sublist (h : xs.Sublist ys) (hnonneg : ∀ y ∈ ys, 0 ≤ measure y) :
    totalOf measure xs ≤ totalOf measure ys := by
  induction h with
  | slnil => exact Int.le_refl _
  | cons y _ ih =>
    rw [List.forall_mem_cons] at hnonneg
    have hrest := ih hnonneg.2
    rw [totalOf_cons]
    omega
  | cons_cons y _ ih =>
    rw [List.forall_mem_cons] at hnonneg
    have hrest := ih hnonneg.2
    rw [totalOf_cons, totalOf_cons]
    omega

theorem totalOf_mono {measure' : α → Int} (h : ∀ x ∈ xs, measure x ≤ measure' x) :
    totalOf measure xs ≤ totalOf measure' xs := by
  induction xs with
  | nil => exact Int.le_refl _
  | cons x xs ih =>
    rw [List.forall_mem_cons] at h
    have hrest := ih h.2
    have hx := h.1
    rw [totalOf_cons, totalOf_cons]
    omega

/-- Two parts of a list that have nothing in common do not come to more than all of it. -/
theorem totalOf_filter_add_le {p q : α → Bool} (hdisjoint : ∀ x ∈ xs, p x = true → q x = false)
    (hnonneg : ∀ x ∈ xs, 0 ≤ measure x) :
    totalOf measure (xs.filter p) + totalOf measure (xs.filter q) ≤ totalOf measure xs := by
  induction xs with
  | nil => exact Int.le_refl _
  | cons x xs ih =>
    rw [List.forall_mem_cons] at hdisjoint hnonneg
    have hrest := ih hdisjoint.2 hnonneg.2
    have hx := hnonneg.1
    rw [List.filter_cons, List.filter_cons, totalOf_cons]
    -- each entry counts on one side at most
    cases hp : p x with
    | true =>
      rw [hdisjoint.1 hp, if_pos rfl, if_neg Bool.false_ne_true, totalOf_cons]
      omega
    | false =>
      rw [if_neg Bool.false_ne_true]
      split
      · rw [totalOf_cons]
        omega
      · omega

/-- Some of a list do not come to more than all of it. -/
theorem totalOf_le_of_subperm (h : xs.Subperm ys) (hnonneg : ∀ y ∈ ys, 0 ≤ measure y) :
    totalOf measure xs ≤ totalOf measure ys := by
  obtain ⟨zs, hperm, hsub⟩ := h
  rw [← totalOf_perm hperm]
  exact totalOf_le_of_sublist hsub hnonneg

end Custody
