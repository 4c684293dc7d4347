import Custody.Failure
import Mathlib.Data.List.Forall2
import Mathlib.Data.List.Perm.Basic

/-!
# Taking answers apart

A calculation is a sequence of steps each of which may fail, so what is known of its answer is what
is known of the steps that led to it. These lemmas turn an equation `… = .ok a` into the answers of
the steps, one construct at a time.

* **`bind_eq_ok`**, **`orFail_eq_ok`**: one step after another, and a value that has to be there.
* **`mapM_eq_ok`**: the answers to the elements of a list, one for each.
* **`foldlM_preserves`**: what every step keeps holds at the end of a run of them.
* **`Rel`**: two calculations that give related answers, or fail both.
-/

namespace Custody.Answered

variable {α β γ : Type}

/-! ## One step after another -/

theorem bind_eq_ok {x : Answered α} {f : α → Answered β} {b : β} :
    (x >>= f) = .ok b ↔ ∃ a, x = .ok a ∧ f a = .ok b := by
  cases x with
  | error e => simp [bind, Except.bind]
  | ok a => simp [bind, Except.bind]

theorem pure_eq_ok {a b : α} : (pure a : Answered α) = .ok b ↔ a = b := by
  simp [pure, Except.pure]

theorem map_eq_ok {x : Answered α} {f : α → β} {b : β} :
    (f <$> x) = .ok b ↔ ∃ a, x = .ok a ∧ f a = b := by
  cases x with
  | error e => simp [Functor.map, Except.map]
  | ok a => simp [Functor.map, Except.map]

theorem orFail_eq_ok {found : Option α} {e : Failure} {a : α} :
    orFail found e = .ok a ↔ found = some a := by
  cases found <;> simp [orFail]

theorem throw_ne_ok {e : Failure} {a : α} : (throw e : Answered α) ≠ .ok a := by
  intro h
  cases h

/-! ## Lists of steps -/

/-- The answers to the elements of a list correspond to them one by one. -/
theorem mapM_eq_ok {f : α → Answered β} {xs : List α} {ys : List β} :
    xs.mapM f = .ok ys ↔ List.Forall₂ (fun x y => f x = .ok y) xs ys := by
  induction xs generalizing ys with
  | nil =>
    rw [List.mapM_nil, pure_eq_ok, List.forall₂_nil_left_iff]
    exact eq_comm
  | cons x xs ih =>
    simp only [List.mapM_cons, bind_eq_ok, pure_eq_ok, List.forall₂_cons_left_iff, ih]
    constructor
    · rintro ⟨y, hy, ys', hys', rfl⟩
      exact ⟨y, ys', hy, hys', rfl⟩
    · rintro ⟨y, ys', hy, hys', rfl⟩
      exact ⟨y, hy, ys', hys', rfl⟩

/-- One run over a list does what a second run over the answers of the first does. -/
theorem mapM_bind_eq_ok {f : α → Answered β} {g : β → Answered γ} {xs : List α} {zs : List γ} :
    xs.mapM (fun x => f x >>= g) = .ok zs ↔ ∃ ys, xs.mapM f = .ok ys ∧ ys.mapM g = .ok zs := by
  simp only [mapM_eq_ok, bind_eq_ok]
  induction xs generalizing zs with
  | nil => simp
  | cons x xs ih =>
    simp only [List.forall₂_cons_left_iff, ih]
    constructor
    · rintro ⟨z, zs', ⟨y, hy, hz⟩, ⟨ys, hys, hzs⟩, rfl⟩
      exact ⟨y :: ys, ⟨y, ys, hy, hys, rfl⟩, .cons hz hzs⟩
    · rintro ⟨_, ⟨y, ys, hy, hys, rfl⟩, hzs⟩
      obtain ⟨z, zs', hz, hzs', rfl⟩ := List.forall₂_cons_left_iff.mp hzs
      exact ⟨z, zs', ⟨y, hy, hz⟩, ⟨ys, hys, hzs'⟩, rfl⟩

/-- The answers to a list in another order are the same answers. -/
theorem mapM_perm {f : α → Answered β} {xs xs' : List α} {ys : List β} (hperm : xs.Perm xs')
    (h : xs.mapM f = .ok ys) : ∃ ys', xs'.mapM f = .ok ys' ∧ ys.Perm ys' := by
  obtain ⟨ys', hys', hperm'⟩ := List.perm_comp_forall₂ hperm.symm (mapM_eq_ok.mp h)
  exact ⟨ys', mapM_eq_ok.mpr hys', hperm'.symm⟩

/-- The answers to what is kept of a list are what is kept of the answers. -/
theorem mapM_filter {f : α → Answered β} {p : α → Bool} {q : β → Bool}
    (hpq : ∀ x y, f x = .ok y → p x = q y) {xs : List α} {ys : List β} (h : xs.mapM f = .ok ys) :
    (xs.filter p).mapM f = .ok (ys.filter q) := by
  rw [mapM_eq_ok] at h ⊢
  induction h with
  | nil => exact .nil
  | @cons x y _ _ hxy _ ih =>
    rw [List.filter_cons, List.filter_cons, hpq x y hxy]
    split
    · exact .cons hxy ih
    · exact ih

/-- A list has answers if each of its elements has one. -/
theorem exists_mapM_eq_ok {f : α → Answered β} {xs : List α} (h : ∀ x ∈ xs, ∃ y, f x = .ok y) :
    ∃ ys, xs.mapM f = .ok ys := by
  induction xs with
  | nil => exact ⟨[], rfl⟩
  | cons x xs ih =>
    rw [List.forall_mem_cons] at h
    obtain ⟨⟨y, hy⟩, hrest⟩ := h
    obtain ⟨ys, hys⟩ := ih hrest
    exact ⟨y :: ys, mapM_eq_ok.mpr (.cons hy (mapM_eq_ok.mp hys))⟩

theorem forM_eq_ok {f : α → Answered Unit} {xs : List α} {u : Unit} :
    xs.forM f = .ok u ↔ ∀ x ∈ xs, f x = .ok () := by
  induction xs with
  | nil => simp [List.forM_nil, pure_eq_ok]
  | cons x xs ih =>
    change (f x >>= fun _ => xs.forM f) = .ok u ↔ _
    rw [bind_eq_ok, List.forall_mem_cons, ← ih]
    constructor
    · rintro ⟨⟨⟩, hx, hxs⟩
      exact ⟨hx, hxs⟩
    · rintro ⟨hx, hxs⟩
      exact ⟨(), hx, hxs⟩

/-- What one step keeps, a run of steps keeps. -/
theorem foldlM_preserves {P : β → Prop} {f : β → α → Answered β} {xs : List α} {b c : β}
    (hstep : ∀ x ∈ xs, ∀ b c, P b → f b x = .ok c → P c) (hb : P b)
    (hrun : xs.foldlM f b = .ok c) : P c := by
  induction xs generalizing b with
  | nil =>
    rw [List.foldlM_nil, pure_eq_ok] at hrun
    exact hrun ▸ hb
  | cons x xs ih =>
    rw [List.foldlM_cons, bind_eq_ok] at hrun
    obtain ⟨b', hx, hrest⟩ := hrun
    refine ih (fun y hy => hstep y (List.mem_cons_of_mem x hy)) ?_ hrest
    exact hstep x List.mem_cons_self b b' hb hx

/-! ## Two calculations side by side -/

/-- Both calculations have answers, which are related, or both fail. -/
inductive Rel (R : α → β → Prop) : Answered α → Answered β → Prop where
  | ok {a : α} {b : β} (h : R a b) : Rel R (.ok a) (.ok b)
  | error (e e' : Failure) : Rel R (.error e) (.error e')

namespace Rel

variable {δ : Type} {R : α → β → Prop} {S : γ → δ → Prop}

/-- The same steps keep calculations related that are related before. -/
theorem bind {x : Answered α} {y : Answered β} {f : α → Answered γ} {g : β → Answered δ}
    (h : Rel R x y) (hstep : ∀ a b, R a b → Rel S (f a) (g b)) : Rel S (x >>= f) (y >>= g) := by
  cases h with
  | ok h => exact hstep _ _ h
  | error e e' => exact .error e e'

/-- After one step that both have in common, what follows is looked at on each of its answers. -/
theorem bind_same {x : Answered α} {f : α → Answered β} {g : α → Answered γ} {R : β → γ → Prop}
    (hstep : ∀ a, Rel R (f a) (g a)) : Rel R (x >>= f) (x >>= g) := by
  cases x with
  | ok a => exact hstep a
  | error e => exact .error e e

theorem exists_of_ok {x : Answered α} {y : Answered β} (h : Rel R x y) {a : α} (hx : x = .ok a) :
    ∃ b, y = .ok b ∧ R a b := by
  cases h with
  | ok h =>
    cases hx
    exact ⟨_, rfl, h⟩
  | error => cases hx

/-- It is enough that each has an answer if the other does, and that their answers are related. -/
theorem of_exists {x : Answered α} {y : Answered β} (hx : ∀ a, x = .ok a → ∃ b, y = .ok b)
    (hy : ∀ b, y = .ok b → ∃ a, x = .ok a) (hR : ∀ a b, x = .ok a → y = .ok b → R a b) :
    Rel R x y := by
  cases x with
  | ok a =>
    obtain ⟨b, rfl⟩ := hx a rfl
    exact .ok (hR a b rfl rfl)
  | error e =>
    cases y with
    | ok b =>
      obtain ⟨a, ha⟩ := hy b rfl
      cases ha
    | error e' => exact .error e e'

/-- A run over a list keeps calculations related if every step does. -/
theorem foldlM {R : α → β → Prop} {f : α → γ → Answered α} {g : β → γ → Answered β}
    (hstep : ∀ z a b, R a b → Rel R (f a z) (g b z)) (zs : List γ) {a : α} {b : β} (h : R a b) :
    Rel R (zs.foldlM f a) (zs.foldlM g b) := by
  induction zs generalizing a b with
  | nil => exact .ok h
  | cons z zs ih =>
    rw [List.foldlM_cons, List.foldlM_cons]
    exact (hstep z a b h).bind fun _ _ => ih

end Rel

/-! ## Two lists side by side -/

/-- Lists that correspond to one list correspond to each other. -/
theorem forall₂_of_common {R : γ → α → Prop} {S : γ → β → Prop} {zs : List γ} {xs : List α}
    {ys : List β} (hx : List.Forall₂ R zs xs) (hy : List.Forall₂ S zs ys) :
    List.Forall₂ (fun x y => ∃ z ∈ zs, R z x ∧ S z y) xs ys := by
  induction hx generalizing ys with
  | nil =>
    rw [List.forall₂_nil_left_iff.mp hy]
    exact .nil
  | @cons z x zs xs hzx _ ih =>
    obtain ⟨y, ys', hzy, hys', rfl⟩ := List.forall₂_cons_left_iff.mp hy
    refine .cons ⟨z, List.mem_cons_self, hzx, hzy⟩ ((ih hys').imp fun x y h => ?_)
    obtain ⟨w, hw, h⟩ := h
    exact ⟨w, List.mem_cons_of_mem z hw, h⟩

theorem exists_of_mem_right {R : α → β → Prop} {xs : List α} {ys : List β}
    (h : List.Forall₂ R xs ys) {y : β} (hy : y ∈ ys) : ∃ x ∈ xs, R x y := by
  induction h with
  | nil => cases hy
  | @cons x y' xs _ hxy _ ih =>
    rcases List.mem_cons.mp hy with rfl | hy
    · exact ⟨x, List.mem_cons_self, hxy⟩
    · obtain ⟨x', hx', hxy'⟩ := ih hy
      exact ⟨x', List.mem_cons_of_mem x hx', hxy'⟩

/-- Lists that have the same to offer side by side have it in all. -/
theorem filterMap_eq_of_forall₂ {f : α → Option γ} {g : β → Option γ} {xs : List α} {ys : List β}
    (h : List.Forall₂ (fun x y => f x = g y) xs ys) : xs.filterMap f = ys.filterMap g := by
  induction h with
  | nil => rfl
  | cons hxy _ ih => rw [List.filterMap_cons, List.filterMap_cons, hxy, ih]

theorem exists_forall₂ {R : α → β → Prop} {ys : List β} (h : ∀ y ∈ ys, ∃ x, R x y) :
    ∃ xs, List.Forall₂ R xs ys := by
  induction ys with
  | nil => exact ⟨[], .nil⟩
  | cons y ys ih =>
    rw [List.forall_mem_cons] at h
    obtain ⟨⟨x, hxy⟩, hrest⟩ := h
    obtain ⟨xs, hxs⟩ := ih hrest
    exact ⟨x :: xs, .cons hxy hxs⟩

theorem forall₂_and {R S : α → β → Prop} {xs : List α} {ys : List β}
    (hR : List.Forall₂ R xs ys) (hS : List.Forall₂ S xs ys) :
    List.Forall₂ (fun x y => R x y ∧ S x y) xs ys := by
  induction hR with
  | nil => exact .nil
  | cons hxy _ ih =>
    rw [List.forall₂_cons] at hS
    exact .cons ⟨hxy, hS.1⟩ (ih hS.2)

/-- Sorting keeps two lists side by side when the order cannot tell them apart. -/
theorem forall₂_mergeSort {R : α → β → Prop} {le₁ : α → α → Bool} {le₂ : β → β → Bool}
    (hle : ∀ a b a' b', R a b → R a' b' → le₁ a a' = le₂ b b') {xs : List α} {ys : List β}
    (h : List.Forall₂ R xs ys) : List.Forall₂ R (xs.mergeSort le₁) (ys.mergeSort le₂) := by
  -- the pairs of corresponding elements are sorted once, and both lists are read off them
  have hpair : ∀ p ∈ xs.zip ys, R p.1 p.2 := fun p hp => List.forall₂_zip h hp
  have hlen := h.length_eq
  let le (p q : α × β) : Bool := le₁ p.1 q.1
  have hfst : ((xs.zip ys).mergeSort le).map Prod.fst = xs.mergeSort le₁ := by
    rw [List.map_mergeSort (s := le₁) (fun _ _ _ _ => rfl), List.map_fst_zip (by omega)]
  have hsnd : ((xs.zip ys).mergeSort le).map Prod.snd = ys.mergeSort le₂ := by
    rw [List.map_mergeSort (s := le₂) fun p hp q hq => hle _ _ _ _ (hpair p hp) (hpair q hq),
      List.map_snd_zip (by omega)]
  rw [← hfst, ← hsnd, List.forall₂_map_left_iff, List.forall₂_map_right_iff, List.forall₂_same]
  intro p hp
  exact hpair p (List.mem_mergeSort.mp hp)

end Custody.Answered
