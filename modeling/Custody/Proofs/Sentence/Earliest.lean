import Custody.Proofs.Calendar.Advance
import Custody.Proofs.Sentence.Assembly

/-!
# The earliest sentencing date

A chain was passed on the earliest date of its components, and a booking begins on the earliest date
of its sentences. The units that are made of the sentences are on no other dates: every sentence is
in a unit, which is not passed after it, and every unit is passed on the date of one of its
sentences. So the earliest date can be read off the sentences or off the units.

* **`earliestOf?_eq_min?`**, **`sentencedAt?_eq_min?`**: the earliest date is the least of those
  that there are.
* **`earliest_of_assemble`**: the units begin when the sentences do.
-/

namespace Custody

open Custody.Calendar

/-! ## Least dates -/

/-- Lists of dates neither of which has one before all of the other have the same least date. -/
theorem Calendar.Date.min?_eq_of_reaches {xs ys : List Date} (hx : ∀ x ∈ xs, ∃ y ∈ ys, y ≤ x)
    (hy : ∀ y ∈ ys, ∃ x ∈ xs, x ≤ y) : xs.min? = ys.min? := by
  cases hleast : xs.min? with
  | none =>
    have hnil : xs = [] := List.min?_eq_none_iff.mp hleast
    subst hnil
    cases ys with
    | nil => rfl
    | cons y ys =>
      obtain ⟨_, hmem, _⟩ := hy y List.mem_cons_self
      cases hmem
  | some least =>
    obtain ⟨hmem, hall⟩ := List.min?_eq_some_iff.mp hleast
    -- the least of the one list is below the other, which reaches down to it
    have hlower : ∀ y ∈ ys, least ≤ y := by
      intro y hmemY
      obtain ⟨x, hmemX, hle⟩ := hy y hmemY
      exact Std.le_trans (hall x hmemX) hle
    obtain ⟨y, hmemY, hle⟩ := hx least hmem
    have hsame : y = least := Std.le_antisymm hle (hlower y hmemY)
    exact (List.min?_eq_some_iff.mpr ⟨hsame ▸ hmemY, hlower⟩).symm

namespace Sentence

/-- The earliest date is the least of those that there are. -/
theorem earliestOf?_eq_min? (sentences : List Sentence) :
    earliestOf? sentences = (sentences.filterMap sentencedAt?).min? := by
  induction sentences with
  | nil => rw [earliestOf?, List.filterMap_nil, List.min?_nil]
  | cons s rest ih =>
    rw [earliestOf?, ih]
    cases hdate : s.sentencedAt? with
    | none => rw [List.filterMap_cons_none hdate, earlier?]
    | some d =>
      rw [List.filterMap_cons_some hdate, List.min?_cons]
      cases (rest.filterMap sentencedAt?).min? <;> rfl

/-- A sentence was passed on the earliest date of its components. -/
theorem sentencedAt?_eq_min? {unit : Sentence} {ss : List Single}
    (hcomponents : unit.components = ss.map single) :
    unit.sentencedAt? = (ss.map Single.sentencedAt).min? := by
  have hdates : (ss.map single).filterMap sentencedAt? = ss.map Single.sentencedAt := by
    rw [List.filterMap_map]
    exact congrFun List.filterMap_eq_map ss
  rw [← hdates, ← hcomponents]
  cases unit with
  | single s => rfl
  | chain parts track => rw [components, ← earliestOf?_eq_min?, sentencedAt?]

/-- The components of the unit of a way are the sentences on it. -/
theorem components_ofPath (way : List Single) : (ofPath way).components = way.map single := by
  match way with
  | [s] => rfl
  | [] => rfl
  | s :: t :: rest => rfl

/-- The unit of a way was passed on the earliest date of the sentences on it. -/
theorem sentencedAt?_ofPath (way : List Single) :
    (ofPath way).sentencedAt? = (way.map Single.sentencedAt).min? :=
  sentencedAt?_eq_min? (components_ofPath way)

/-- **The units begin when the sentences do.** -/
theorem earliest_of_assemble {sentences units : List Sentence}
    (h : assemble sentences = .ok units) :
    (units.filterMap sentencedAt?).min? = earliestOf? sentences := by
  obtain ⟨_, hdistinct, _, _, hpassed, rfl⟩ := assemble_eq_ok.mp h
  rw [earliestOf?_eq_min?]
  refine Date.min?_eq_of_reaches (fun d hd => ?_) fun d hd => ?_
  · -- a unit is a chain as it was recorded, or has the date of a sentence on its way
    obtain ⟨unit, hunit, hdate⟩ := List.mem_filterMap.mp hd
    rcases List.mem_append.mp hunit with hchain | hunit
    · exact ⟨d, List.mem_filterMap.mpr ⟨unit, (List.mem_filter.mp hchain).1, hdate⟩, Std.le_refl d⟩
    · obtain ⟨way, hway, rfl⟩ := List.mem_map.mp hunit
      obtain ⟨_, hto, _⟩ := (Single.mem_paths hdistinct).mp hway
      rw [sentencedAt?_ofPath] at hdate
      obtain ⟨s, hs, rfl⟩ := List.mem_map.mp (List.min?_eq_some_iff.mp hdate).1
      obtain ⟨_, hpart, _⟩ := hto.exists_of_mem hs
      obtain ⟨recorded, hmem, hsingle⟩ := List.mem_filterMap.mp hpart.mem_singles
      refine ⟨s.sentencedAt, List.mem_filterMap.mpr ⟨recorded, hmem, ?_⟩, Std.le_refl _⟩
      cases recorded with
      | single _ => cases hsingle; rfl
      | chain _ _ => cases hsingle
  · -- a sentence is a chain, which is a unit, or is on a way, which was passed no later
    obtain ⟨recorded, hmem, hdate⟩ := List.mem_filterMap.mp hd
    cases recorded with
    | chain parts track =>
      refine ⟨d, List.mem_filterMap.mpr ⟨.chain parts track, List.mem_append_left _ ?_, hdate⟩,
        Std.le_refl d⟩
      exact List.mem_filter.mpr ⟨hmem, rfl⟩
    | single s =>
      cases hdate
      have hs : s ∈ singlesOf sentences := List.mem_filterMap.mpr ⟨_, hmem, rfl⟩
      obtain ⟨way, hway, t, ht, hidentifier⟩ := hpassed s hs
      obtain ⟨_, hto, _⟩ := (Single.mem_paths hdistinct).mp hway
      obtain ⟨_, hpart, _⟩ := hto.exists_of_mem ht
      obtain rfl := hdistinct.eq_of_identifier_eq hpart.mem_singles hs hidentifier
      have hdates : t.sentencedAt ∈ way.map Single.sentencedAt := List.mem_map_of_mem ht
      obtain ⟨least, hleast⟩ : ∃ least, (way.map Single.sentencedAt).min? = some least :=
        Option.ne_none_iff_exists'.mp fun hnil =>
          List.ne_nil_of_mem hdates (List.min?_eq_none_iff.mp hnil)
      refine ⟨least, List.mem_filterMap.mpr ⟨ofPath way, ?_, ?_⟩,
        (List.min?_eq_some_iff.mp hleast).2 _ hdates⟩
      · exact List.mem_append_right _ (List.mem_map_of_mem hway)
      · rw [sentencedAt?_ofPath, hleast]

end Sentence

end Custody
