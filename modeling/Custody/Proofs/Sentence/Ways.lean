import Custody.Proofs.Answered
import Custody.Proofs.Sorting
import Custody.Sentence.Assembly
import Mathlib.Data.Fintype.Card
import Mathlib.Data.Set.Finite.Basic
import Mathlib.Data.List.Nodup
import Mathlib.Logic.Relation

/-!
# Ways along the links

A sentence may name one other that it follows, so each sentence has at most one way that leads to
it, while several ways may lead on from it. `WayTo singles s way` says that `way` is the way to `s`,
from a sentence that follows none. What the assembly of chains lists by a depth-first walk, which
takes from a pool what it has passed, is described here without walk and pool.

* **`WayTo.unique`**, **`WayTo.nodup`**: there is one way to a sentence, and it passes none twice.
* **`WayTo.exists_last`**: it leads on to a sentence that is last.
* **`acyclic_iff`**: links have no cycle iff there is a way to every sentence.
* **`mem_paths`**, **`nodup_paths`**: the walk lists every way to a sentence that is last, once.
-/

namespace Custody

open Custody.Calendar

namespace Single

variable {singles pool before way way' : List Single} {s t : Single}

/-- One recorded sentence is followed by another. -/
def LeadsTo (singles : List Single) (s t : Single) : Prop :=
  s ∈ singles ∧ t ∈ singles ∧ t.consecutiveTo = some s.identifier

/-- No sentence is followed, at however many removes, by itself. -/
def Acyclic (singles : List Single) : Prop :=
  ∀ s, ¬ Relation.TransGen (LeadsTo singles) s s

/-- The sentence is followed by none. -/
def IsLast (singles : List Single) (s : Single) : Prop :=
  ∀ t ∈ singles, t.consecutiveTo ≠ some s.identifier

instance (singles : List Single) : DecidablePred (IsLast singles) := fun s =>
  inferInstanceAs (Decidable (∀ t ∈ singles, t.consecutiveTo ≠ some s.identifier))

/-- The way to a sentence: from one that follows none, each followed by the next. -/
inductive WayTo (singles : List Single) : Single → List Single → Prop where
  | start {s : Single} (hs : s ∈ singles) (hfirst : s.consecutiveTo = none) : WayTo singles s [s]
  | on {s t : Single} {way : List Single} (hway : WayTo singles s way) (ht : t ∈ singles)
      (hlink : t.consecutiveTo = some s.identifier) : WayTo singles t (way ++ [t])

/-- No two of the sentences have the same identifier. -/
def Distinct (singles : List Single) : Prop :=
  (singles.map Single.identifier).Nodup

theorem Distinct.eq_of_identifier_eq (h : Distinct singles) (hs : s ∈ singles) (ht : t ∈ singles)
    (heq : s.identifier = t.identifier) : s = t :=
  List.inj_on_of_nodup_map h hs ht heq

theorem Distinct.nodup (h : Distinct singles) : singles.Nodup :=
  List.Nodup.of_map _ h

/-! ## The way to a sentence -/

namespace WayTo

theorem mem_singles (h : WayTo singles t way) : t ∈ singles := by
  cases h with
  | start ht => exact ht
  | on _ ht => exact ht

/-- A way ends with the sentence it leads to. -/
theorem exists_eq_concat (h : WayTo singles t way) : ∃ before, way = before ++ [t] := by
  cases h with
  | start => exact ⟨[], rfl⟩
  | @on s _ way hway => exact ⟨way, rfl⟩

theorem eq_of_concat (h : WayTo singles t (before ++ [s])) : s = t := by
  obtain ⟨before', heq⟩ := h.exists_eq_concat
  exact (List.append_inj' heq rfl).2 |> List.singleton_inj.mp

theorem length_pos (h : WayTo singles t way) : 0 < way.length := by
  obtain ⟨before, rfl⟩ := h.exists_eq_concat
  simp

/-- The way to a sentence that follows none is that sentence alone. -/
theorem eq_singleton_iff (h : WayTo singles t way) : way = [t] ↔ t.consecutiveTo = none := by
  cases h with
  | start _ hfirst => simp [hfirst]
  | @on s _ way hway _ hlink =>
    have hpos := hway.length_pos
    have hne : way ++ [t] ≠ [t] := by
      intro heq
      have hlength := congrArg List.length heq
      simp only [List.length_append, List.length_singleton] at hlength
      omega
    simp [hlink, hne]

/-- A way starts with a sentence that follows none. -/
theorem exists_start (h : WayTo singles t way) :
    ∃ first ∈ singles, first.consecutiveTo = none ∧ [first] <+: way := by
  induction h with
  | @start s hs hfirst => exact ⟨s, hs, hfirst, List.prefix_rfl⟩
  | on _ _ _ ih =>
    obtain ⟨first, hmem, hfirst, hinit⟩ := ih
    exact ⟨first, hmem, hfirst, hinit.trans (List.prefix_append _ _)⟩

/-- To every sentence on a way leads a part of it. -/
theorem exists_of_mem (h : WayTo singles t way) (hs : s ∈ way) :
    ∃ part, WayTo singles s part ∧ part <+: way := by
  induction h with
  | @start u hu hfirst =>
    obtain rfl := List.mem_singleton.mp hs
    exact ⟨[s], .start hu hfirst, List.prefix_rfl⟩
  | @on u t way hway ht hlink ih =>
    rcases List.mem_append.mp hs with hs | hs
    · obtain ⟨part, hpart, hinit⟩ := ih hs
      exact ⟨part, hpart, hinit.trans (List.prefix_append _ _)⟩
    · obtain rfl := List.mem_singleton.mp hs
      exact ⟨way ++ [s], .on hway ht hlink, List.prefix_rfl⟩

/-- **There is one way to a sentence**, since it names what it follows. -/
theorem unique (hdistinct : Distinct singles) (h : WayTo singles t way)
    (h' : WayTo singles t way') : way = way' := by
  induction h generalizing way' with
  | start _ hfirst =>
    cases h' with
    | start => rfl
    | on _ _ hlink =>
      rw [hfirst] at hlink
      cases hlink
  | on hway _ hlink ih =>
    cases h' with
    | start _ hfirst =>
      rw [hfirst] at hlink
      cases hlink
    | on hway' _ hlink' =>
      -- both ways come from the sentence of the one identifier that is named
      have hsame := Option.some.inj (hlink.symm.trans hlink')
      have heq := hdistinct.eq_of_identifier_eq hway.mem_singles hway'.mem_singles hsame
      subst heq
      rw [ih hway']

/-- **A way passes no sentence twice.** The part that leads to where it was passed first would be
another way to the same sentence. -/
theorem nodup (hdistinct : Distinct singles) (h : WayTo singles t way) : way.Nodup := by
  induction h with
  | start => exact List.nodup_singleton _
  | @on s t way hway ht hlink ih =>
    -- a sentence that came again would be reached by two ways of different lengths
    have hnew : t ∉ way := by
      intro hmem
      obtain ⟨part, hpart, hinit⟩ := hway.exists_of_mem hmem
      have heq := unique hdistinct hpart (.on hway ht hlink)
      have hlength := hinit.length_le
      rw [heq, List.length_append, List.length_singleton] at hlength
      omega
    exact List.nodup_append.mpr ⟨ih, List.nodup_singleton t, fun a ha b hb => by
      rintro rfl
      exact hnew (List.mem_singleton.mp hb ▸ ha)⟩

/-- A way that goes on from a sentence goes on with one that follows it. -/
theorem exists_next (h : WayTo singles t way) (hinit : before ++ [s] <+: way)
    (hne : way ≠ before ++ [s]) :
    ∃ u, WayTo singles u (before ++ [s] ++ [u]) ∧ u.consecutiveTo = some s.identifier
      ∧ before ++ [s] ++ [u] <+: way := by
  induction h with
  | @start v hv hfirst =>
    -- nothing but the whole of a way of one sentence starts it
    have hlength := hinit.length_le
    have heq := hinit.eq_of_length_le (by simp at hlength ⊢)
    exact absurd heq.symm hne
  | @on v u way hway hu hlink ih =>
    rcases List.prefix_concat_iff.mp hinit with heq | hinit
    · exact absurd heq.symm hne
    · by_cases hend : way = before ++ [s]
      · subst hend
        obtain rfl := hway.eq_of_concat
        exact ⟨u, .on hway hu hlink, hlink, List.prefix_rfl⟩
      · obtain ⟨w, hw, hfollows, hpre⟩ := ih hinit hend
        exact ⟨w, hw, hfollows, hpre.trans (List.prefix_append _ _)⟩

theorem length_le (hdistinct : Distinct singles) (h : WayTo singles t way) :
    way.length ≤ singles.length := by
  have hsub : way ⊆ singles := by
    intro s hs
    obtain ⟨part, hpart, _⟩ := h.exists_of_mem hs
    exact hpart.mem_singles
  exact (List.subperm_of_subset (h.nodup hdistinct) hsub).length_le

/-- Every way leads on to a sentence that is last, by induction on how much longer it may be. -/
theorem exists_last (hdistinct : Distinct singles) (h : WayTo singles s way) :
    ∃ t more, WayTo singles t (way ++ more) ∧ IsLast singles t := by
  induction hn : singles.length - way.length generalizing s way with
  | zero =>
    -- the way passes all sentences, so there is none left to follow
    refine ⟨s, [], by rwa [List.append_nil], fun t ht hlink => ?_⟩
    have hlength := (WayTo.on h ht hlink).length_le hdistinct
    rw [List.length_append, List.length_singleton] at hlength
    omega
  | succ n ih =>
    by_cases hlast : IsLast singles s
    · exact ⟨s, [], by rwa [List.append_nil], hlast⟩
    · rw [IsLast] at hlast
      push Not at hlast
      obtain ⟨t, ht, hlink⟩ := hlast
      obtain ⟨u, more, hway, hu⟩ := ih (.on h ht hlink)
        (by rw [List.length_append, List.length_singleton]; omega)
      exact ⟨u, [t] ++ more, by rwa [← List.append_assoc], hu⟩

/-- What follows a sentence, at however many removes, has a way that passes it. -/
theorem of_transGen (h : WayTo singles s way) (ht : Relation.TransGen (LeadsTo singles) s t) :
    ∃ more, more ≠ [] ∧ WayTo singles t (way ++ more) := by
  induction ht with
  | @single u hu =>
    obtain ⟨_, hmem, hlink⟩ := hu
    exact ⟨[u], List.cons_ne_nil _ _, .on h hmem hlink⟩
  | @tail u v _ hv ih =>
    obtain ⟨more, hne, hway⟩ := ih
    obtain ⟨_, hmem, hlink⟩ := hv
    refine ⟨more ++ [v], by simp, ?_⟩
    rw [← List.append_assoc]
    exact .on hway hmem hlink

end WayTo

/-! ## Links without a cycle -/

/-- **Links have no cycle iff there is a way to every sentence.** A sentence on a cycle would have a
longer way than its own; and going back along links without a cycle comes to an end. -/
theorem acyclic_iff (hdistinct : Distinct singles)
    (hknown : ∀ t ∈ singles, ∀ i, t.consecutiveTo = some i → ∃ s ∈ singles, s.identifier = i) :
    Acyclic singles ↔ ∀ s ∈ singles, ∃ way, WayTo singles s way := by
  constructor
  · intro hacyclic
    -- among finitely many sentences, being followed without a cycle is well-founded
    let precedes (a b : {s // s ∈ singles}) : Prop :=
      Relation.TransGen (LeadsTo singles) a.1 b.1
    have : Finite {s // s ∈ singles} := (List.finite_toSet singles).to_subtype
    have : IsTrans _ precedes := ⟨fun _ _ _ hab hbc => hab.trans hbc⟩
    have : Std.Irrefl precedes := ⟨fun a => hacyclic a.1⟩
    have hwf := Finite.wellFounded_of_trans_of_irrefl precedes
    suffices hall : ∀ a : {s // s ∈ singles}, ∃ way, WayTo singles a.1 way from
      fun s hs => hall ⟨s, hs⟩
    intro a
    induction a using hwf.induction with
    | _ a ih =>
      obtain ⟨t, ht⟩ := a
      cases hlink : t.consecutiveTo with
      | none => exact ⟨[t], .start ht hlink⟩
      | some i =>
        obtain ⟨s, hs, rfl⟩ := hknown t ht i hlink
        obtain ⟨way, hway⟩ := ih ⟨s, hs⟩ (.single ⟨hs, ht, hlink⟩)
        exact ⟨way ++ [t], .on hway ht hlink⟩
  · intro hways s hcycle
    obtain ⟨t, hst, _⟩ := Relation.TransGen.head'_iff.mp hcycle
    obtain ⟨way, hway⟩ := hways s hst.1
    obtain ⟨more, hne, hway'⟩ := hway.of_transGen hcycle
    have heq := WayTo.unique hdistinct hway hway'
    exact hne (List.self_eq_append_right.mp heq)

/-! ## The order of followers -/

theorem servedBefore_iff : servedBefore s t = true
    ↔ s.sentencedAt.day < t.sentencedAt.day ∨ s.sentencedAt.day = t.sentencedAt.day
      ∧ (s.caseSequence.toNat < t.caseSequence.toNat
        ∨ s.caseSequence.toNat = t.caseSequence.toNat
          ∧ s.lineSequence.toNat ≤ t.lineSequence.toNat) := by
  simp only [servedBefore, Bool.or_eq_true, Bool.and_eq_true, decide_eq_true_eq, Date.lt_iff,
    Date.ext_iff, UInt32.lt_iff_toNat_lt, UInt32.le_iff_toNat_le, ← UInt32.toNat_inj]

theorem servedBefore_trans (s t u : Single) (hst : servedBefore s t) (htu : servedBefore t u) :
    servedBefore s u := by
  rw [servedBefore_iff] at hst htu ⊢
  omega

theorem servedBefore_total (s t : Single) : servedBefore s t || servedBefore t s := by
  rw [Bool.or_eq_true, servedBefore_iff, servedBefore_iff]
  omega

theorem successors_eq_insertionSort (pool : List Single) (s : Single) :
    successors pool s = (pool.filter (·.consecutiveTo = some s.identifier)).insertionSort
      fun t u => servedBefore t u :=
  Sorting.mergeSort_eq_insertionSort servedBefore_trans servedBefore_total _

/-! ## The walk -/

theorem mem_successors :
    t ∈ successors pool s ↔ t ∈ pool ∧ t.consecutiveTo = some s.identifier := by
  simp [successors]

theorem mem_without {i : Identifier} : t ∈ without pool i ↔ t ∈ pool ∧ t.identifier ≠ i := by
  simp [without]

/-- Where nothing follows the walk has come to the end of a way. -/
theorem pathsFrom_of_nil (h : successors pool s = []) :
    pathsFrom pool before s = [before ++ [s]] := by
  rw [pathsFrom]
  simp [h]

/-- Otherwise it goes on with all that follow, one after the other. -/
theorem pathsFrom_of_ne_nil (h : successors pool s ≠ []) :
    pathsFrom pool before s
      = (successors pool s).flatMap fun t =>
          pathsFrom (without pool t.identifier) (before ++ [s]) t := by
  rw [pathsFrom]
  simp [h, List.flatMap_subtype, List.unattach_attach]

theorem prefix_of_mem_pathsFrom (h : way ∈ pathsFrom pool before s) : before ++ [s] <+: way := by
  induction pool, before, s using pathsFrom.induct with
  | case1 pool before s next hnil =>
    rw [pathsFrom_of_nil (List.isEmpty_iff.mp hnil), List.mem_singleton] at h
    rw [h]
  | case2 pool before s path next hne ih =>
    rw [pathsFrom_of_ne_nil (by simpa using hne), List.mem_flatMap] at h
    obtain ⟨t, ht, hway⟩ := h
    exact (List.prefix_append _ _).trans (ih t ht hway)

/-- What the pool of a walk holds: all sentences but some of those that have been passed. -/
structure Remaining (singles passed pool : List Single) : Prop where
  sub : ∀ t ∈ pool, t ∈ singles
  mem : ∀ t ∈ singles, t ∉ passed → t ∈ pool

namespace Remaining

theorem without (h : Remaining singles before pool) (hdistinct : Distinct singles)
    (ht : t ∈ singles) : Remaining singles (before ++ [t]) (without pool t.identifier) where
  sub u hu := h.sub u (mem_without.mp hu).1
  mem u hu hnew := by
    rw [List.mem_append, List.mem_singleton, not_or] at hnew
    refine mem_without.mpr ⟨h.mem u hu hnew.1, fun hsame => hnew.2 ?_⟩
    exact hdistinct.eq_of_identifier_eq hu ht hsame

/-- No sentence is missed: one that follows the last of a way is not on it. -/
theorem mem_successors_iff (h : Remaining singles (before ++ [s]) pool)
    (hdistinct : Distinct singles) (hway : WayTo singles s (before ++ [s])) :
    t ∈ successors pool s ↔ t ∈ singles ∧ t.consecutiveTo = some s.identifier := by
  rw [mem_successors]
  constructor
  · rintro ⟨ht, hlink⟩
    exact ⟨h.sub t ht, hlink⟩
  · rintro ⟨ht, hlink⟩
    have hnodup := (WayTo.on hway ht hlink).nodup hdistinct
    have hnew : t ∉ before ++ [s] := fun hmem =>
      (List.nodup_append.mp hnodup).2.2 t hmem t (List.mem_singleton.mpr rfl) rfl
    exact ⟨h.mem t ht hnew, hlink⟩

end Remaining

/-- **The walk from a sentence.** It lists the ways that go on from there until nothing follows. -/
theorem mem_pathsFrom (hdistinct : Distinct singles) (hway : WayTo singles s (before ++ [s]))
    (hpool : Remaining singles (before ++ [s]) pool) :
    way ∈ pathsFrom pool before s
      ↔ before ++ [s] <+: way ∧ ∃ t, WayTo singles t way ∧ IsLast singles t := by
  have hnext {t : Single} := hpool.mem_successors_iff (t := t) hdistinct hway
  induction pool, before, s using pathsFrom.induct with
  | case1 pool before s next hnil =>
    have hnil : successors pool s = [] := List.isEmpty_iff.mp hnil
    have hlast : IsLast singles s := by
      intro t ht hlink
      have hmem := hnext.mpr ⟨ht, hlink⟩
      rw [hnil] at hmem
      cases hmem
    rw [pathsFrom_of_nil hnil, List.mem_singleton]
    constructor
    · rintro rfl
      exact ⟨List.prefix_rfl, s, hway, hlast⟩
    · rintro ⟨hinit, t, ht, _⟩
      by_contra hne
      obtain ⟨u, hu, hlink, _⟩ := ht.exists_next hinit hne
      exact hlast u hu.mem_singles hlink
  | case2 pool before s path next hne ih =>
    rw [pathsFrom_of_ne_nil (by simpa using hne), List.mem_flatMap]
    have hstep : ∀ t ∈ successors pool s, way ∈ pathsFrom (Single.without pool t.identifier)
        (before ++ [s]) t ↔ before ++ [s] ++ [t] <+: way
          ∧ ∃ u, WayTo singles u way ∧ IsLast singles u := by
      intro t ht
      obtain ⟨htmem, hlink⟩ := hnext.mp ht
      have hwayt := WayTo.on hway htmem hlink
      have hpoolt := hpool.without hdistinct htmem
      exact ih t ht hwayt hpoolt (hpoolt.mem_successors_iff hdistinct hwayt)
    constructor
    · rintro ⟨t, ht, hmem⟩
      obtain ⟨hinit, hlast⟩ := (hstep t ht).mp hmem
      exact ⟨(List.prefix_append _ _).trans hinit, hlast⟩
    · rintro ⟨hinit, u, hu, hlast⟩
      -- the way does not end here, where something follows
      have hgoes : way ≠ before ++ [s] := by
        rintro rfl
        obtain rfl := hu.eq_of_concat
        obtain ⟨t, ht⟩ := List.exists_mem_of_ne_nil _ (by simpa using hne)
        obtain ⟨htmem, hlink⟩ := hnext.mp ht
        exact hlast t htmem hlink
      obtain ⟨t, ht, hlink, hinit'⟩ := hu.exists_next hinit hgoes
      have hmem := hnext.mpr ⟨ht.mem_singles, hlink⟩
      exact ⟨t, hmem, (hstep t hmem).mpr ⟨hinit', u, hu, hlast⟩⟩

/-- **The walk lists the ways to the sentences that are last**, and nothing else. -/
theorem mem_paths (hdistinct : Distinct singles) :
    way ∈ paths singles ↔ ∃ t, WayTo singles t way ∧ IsLast singles t := by
  have hroot : ∀ r ∈ singles, r.consecutiveTo = none → (way ∈ pathsFrom singles [] r
      ↔ [r] <+: way ∧ ∃ t, WayTo singles t way ∧ IsLast singles t) := fun r hr hfirst =>
    mem_pathsFrom hdistinct (.start hr hfirst) ⟨fun _ h => h, fun _ h _ => h⟩
  simp only [paths, List.mem_flatMap, List.mem_filter, Option.isNone_iff_eq_none]
  constructor
  · rintro ⟨r, ⟨hr, hfirst⟩, hmem⟩
    exact ((hroot r hr hfirst).mp hmem).2
  · rintro ⟨t, ht, hlast⟩
    obtain ⟨r, hr, hfirst, hinit⟩ := ht.exists_start
    exact ⟨r, ⟨hr, hfirst⟩, (hroot r hr hfirst).mpr ⟨hinit, t, ht, hlast⟩⟩

/-- Lists that start in different ways are different. -/
theorem disjoint_of_prefix {α : Type} {xs ys : List (List α)} {p : List α} {a b : α} (hne : a ≠ b)
    (hxs : ∀ x ∈ xs, p ++ [a] <+: x) (hys : ∀ y ∈ ys, p ++ [b] <+: y) : List.Disjoint xs ys := by
  intro z hx hy
  have hinit := List.prefix_of_prefix_length_le (hxs z hx) (hys z hy) (by simp)
  have heq := hinit.eq_of_length (by simp)
  exact hne (List.singleton_inj.mp (List.append_cancel_left heq))

theorem nodup_pathsFrom (hpool : pool.Nodup) : (pathsFrom pool before s).Nodup := by
  induction pool, before, s using pathsFrom.induct with
  | case1 pool before s next hnil =>
    rw [pathsFrom_of_nil (List.isEmpty_iff.mp hnil)]
    exact List.nodup_singleton _
  | case2 pool before s path next hne ih =>
    rw [pathsFrom_of_ne_nil (by simpa using hne), List.nodup_flatMap]
    have hnodup : (successors pool s).Nodup :=
      (List.mergeSort_perm _ _).nodup_iff.mpr (hpool.filter _)
    refine ⟨fun t ht => ih t ht (hpool.filter _), hnodup.imp fun {t u} htu => ?_⟩
    -- paths by different successors part where these come
    exact disjoint_of_prefix htu (fun _ => prefix_of_mem_pathsFrom)
      (fun _ => prefix_of_mem_pathsFrom)

/-- **No way is listed twice.** -/
theorem nodup_paths (hdistinct : Distinct singles) : (paths singles).Nodup := by
  rw [paths, List.nodup_flatMap]
  refine ⟨fun r _ => nodup_pathsFrom hdistinct.nodup, ?_⟩
  refine (hdistinct.nodup.filter _).imp fun {r u} hru => ?_
  exact disjoint_of_prefix (p := []) hru (fun _ => prefix_of_mem_pathsFrom)
    (fun _ => prefix_of_mem_pathsFrom)

end Single

end Custody
