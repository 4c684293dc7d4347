import Custody.Proofs.Config.Usable
import Custody.Proofs.Sentence.InDays
import Custody.Proofs.Unit.ReleasePoint

/-!
# Days served with room

The days that are served of the parts are added up one after the other. As long as all shares are
whole numbers of steps of one place, and there is room for all of them together, nothing is rounded
on the way, and the sum does not depend on how a length is divided into parts.

* **`Sentence.servedDays_value_of_room`**: the sum is exact where there is room.
* **`Sentence.exists_servedDays_iff`**: there is a sum if every track has a multiplier.
* **`Sentence.daysToRelease_of_room`**: the days to release of components that count days.
-/

namespace Custody

open Custody.Calendar

namespace ReleasePoints

/-- The days that are served of a component that counts days. -/
def shareOf (points : ReleasePoints) (s : Single) : ℚ :=
  (s.term.dayCount : ℚ) * (s.track.map points.fraction).getD 0

variable {points : ReleasePoints}

theorem share_of_spans {p : Part} {s : Single} (h : p.Spans s) :
    points.share p = points.shareOf s := by
  rw [share, shareOf, h.custodialDays, h.track, Int.cast_natCast]

theorem map_share_of_spans {parts : List Part} {ss : List Single}
    (h : List.Forall₂ Part.Spans parts ss) : parts.map points.share = ss.map points.shareOf := by
  rw [← List.forall₂_eq_eq_eq, List.forall₂_map_left_iff, List.forall₂_map_right_iff]
  exact h.imp fun _ _ hpart => share_of_spans hpart

theorem shareOf_of_track {s : Single} {track : Track} (h : s.track = some track) :
    points.shareOf s = s.term.dayCount * points.fraction track := by
  rw [shareOf, h, Option.map_some, Option.getD_some]

/-- On one track the shares come to the share of all days together. -/
theorem sum_shareOf_of_track {ss : List Single} {track : Track}
    (h : ∀ s ∈ ss, s.track = some track) :
    (ss.map points.shareOf).sum = dayTotal ss * points.fraction track := by
  induction ss with
  | nil =>
    rw [List.map_nil, List.sum_nil, show dayTotal [] = 0 from rfl, Nat.cast_zero, zero_mul]
  | cons s ss ih =>
    rw [List.forall_mem_cons] at h
    rw [List.map_cons, List.sum_cons, ih h.2, shareOf_of_track h.1, dayTotal_cons, Nat.cast_add,
      add_mul]

/-- All shares of components are whole numbers of steps of one place, and there is room for them
together. -/
structure HasRoom (points : ReleasePoints) (ss : List Single) (places : Nat) : Prop where
  places_le : places ≤ Decimal.maxPlaces
  inSteps : ∀ s ∈ ss, Decimal.InSteps places (points.shareOf s)
  room : (ss.map fun s => |points.shareOf s|).sum * Decimal.scale places ≤ Decimal.maxMantissa

/-- Room for components is room for the last of them. -/
theorem HasRoom.of_append_right {ss ss' : List Single} {places : Nat}
    (h : points.HasRoom (ss ++ ss') places) : points.HasRoom ss' places where
  places_le := h.places_le
  inSteps s hs := h.inSteps s (List.mem_append_right ss hs)
  room := by
    have hroom := h.room
    have hfront := Sentence.sum_abs_nonneg (ss.map points.shareOf)
    rw [List.map_map] at hfront
    rw [List.map_append, List.sum_append] at hroom
    refine le_trans ?_ hroom
    exact mul_le_mul_of_nonneg_right (le_add_of_nonneg_left hfront) (Decimal.scale_pos' places).le

/-- The shares are no more than the days together, if no fraction is more than the whole. -/
theorem sum_abs_shareOf_le {ss : List Single}
    (hfraction : ∀ track ∈ ss.filterMap Single.track, |points.fraction track| ≤ 1) :
    (ss.map fun s => |points.shareOf s|).sum ≤ dayTotal ss := by
  induction ss with
  | nil => exact le_of_eq Nat.cast_zero.symm
  | cons s ss ih =>
    have hrest : ∀ track ∈ ss.filterMap Single.track, |points.fraction track| ≤ 1 :=
      fun track htrack => hfraction track ((List.sublist_cons_self s ss).filterMap _ |>.mem htrack)
    -- a component that is on no track has no share
    have hown : |(s.track.map points.fraction).getD 0| ≤ 1 := by
      cases htrack : s.track with
      | none => exact abs_zero.le.trans zero_le_one
      | some track =>
        exact hfraction track (List.mem_filterMap.mpr ⟨s, List.mem_cons_self, htrack⟩)
    have hdays : (0 : ℚ) ≤ s.term.dayCount := Nat.cast_nonneg _
    have hshare : |points.shareOf s| ≤ s.term.dayCount := by
      rw [shareOf, abs_mul, abs_of_nonneg hdays]
      exact mul_le_of_le_one_right hdays hown
    rw [List.map_cons, List.sum_cons, dayTotal_cons, Nat.cast_add]
    exact add_le_add hshare (ih hrest)

/-- There is room for the shares if there is for the days, written with the places of the
fractions. -/
theorem hasRoom_of_fractions {ss : List Single} {places : Nat}
    (hplaces : places ≤ Decimal.maxPlaces)
    (hfraction : ∀ track ∈ ss.filterMap Single.track, |points.fraction track| ≤ 1)
    (hsteps : ∀ track ∈ ss.filterMap Single.track, Decimal.InSteps places (points.fraction track))
    (hroom : dayTotal ss * Decimal.scale places ≤ Decimal.maxMantissa) :
    points.HasRoom ss places where
  places_le := hplaces
  inSteps s hs := by
    rw [shareOf, ← Int.cast_natCast]
    refine Decimal.InSteps.int_mul _ ?_
    cases htrack : s.track with
    | none => exact .zero places
    | some track => exact hsteps track (List.mem_filterMap.mpr ⟨s, hs, htrack⟩)
  room := by
    have hdays : (dayTotal ss : ℚ) * Decimal.scale places ≤ Decimal.maxMantissa := by
      exact_mod_cast hroom
    exact (mul_le_mul_of_nonneg_right (sum_abs_shareOf_le hfraction)
      (Decimal.scale_pos' places).le).trans hdays

/-- With at most twenty places there is room for any number of days that the range of dates has. -/
theorem hasRoom_of_twentyPlaces {ss : List Single}
    (hfraction : ∀ track ∈ ss.filterMap Single.track, |points.fraction track| ≤ 1)
    (hsteps : ∀ track ∈ ss.filterMap Single.track, Decimal.InSteps 20 (points.fraction track))
    (hrange : dayTotal ss ≤ 200000000) : points.HasRoom ss 20 :=
  hasRoom_of_fractions (by decide) hfraction hsteps
    ((Nat.mul_le_mul_right _ hrange).trans (by decide))

/-- Room for the shares on one track is room for a share of all days together. -/
theorem HasRoom.merged {ss : List Single} {places : Nat} {track : Track}
    (h : points.HasRoom ss places) (htrack : ∀ s ∈ ss, s.track = some track) {whole : Single}
    (hwhole : whole.track = some track) (hdays : whole.term.dayCount = dayTotal ss) :
    points.HasRoom [whole] places := by
  -- the share of the whole is the sum of the shares
  have hshare : points.shareOf whole = (ss.map points.shareOf).sum := by
    rw [sum_shareOf_of_track htrack, shareOf_of_track hwhole, hdays]
  refine ⟨h.places_le, fun s hs => ?_, ?_⟩
  · rw [List.mem_singleton.mp hs, hshare]
    exact .sum (List.forall_mem_map.mpr h.inSteps)
  · have habs : |points.shareOf whole| ≤ (ss.map fun s => |points.shareOf s|).sum := by
      rw [hshare, ← Function.comp_def, ← List.map_map]
      exact List.le_sum_of_subadditive _ abs_zero.le abs_add_le _
    rw [List.map_singleton, List.sum_singleton]
    exact (mul_le_mul_of_nonneg_right habs (Decimal.scale_pos' places).le).trans h.room

end ReleasePoints

namespace Sentence

variable {points : ReleasePoints} {places : Nat}

/-- **The days that are served of components that count days are added up exactly** where there is
room. -/
theorem servedDays_value_of_room {parts : List Part} {ss : List Single} {total : Decimal}
    (hspans : List.Forall₂ Part.Spans parts ss) (hroom : points.HasRoom ss places)
    (h : servedDays points parts = .ok total) : total.value = (ss.map points.shareOf).sum := by
  have hshares : parts.map points.share = ss.map points.shareOf :=
    ReleasePoints.map_share_of_spans hspans
  -- what is known of the shares of components holds of those of the parts
  have hsteps : ∀ p ∈ parts, Decimal.InSteps places (points.share p) := by
    rw [← List.forall_mem_map, hshares, List.forall_mem_map]
    exact hroom.inSteps
  have hall : ((parts.map points.share).map fun x => |x|).sum * Decimal.scale places
      ≤ Decimal.maxMantissa := by
    rw [hshares, List.map_map]
    exact hroom.room
  rw [servedDays_value_of_inSteps hroom.places_le hsteps hall h, hshares]

/-- There is a sum exactly if the track of every part has a multiplier. -/
theorem exists_servedDays_iff {parts : List Part} : (∃ total, servedDays points parts = .ok total)
    ↔ ∀ p ∈ parts, ∃ track m, p.track = some track ∧ points.multiplierFor track = .ok m := by
  rw [servedDays_eq_foldlM]
  -- by induction on the parts, with whatever has been added up so far
  generalize (0 : Decimal) = served
  induction parts generalizing served with
  | nil => exact iff_of_true ⟨served, rfl⟩ fun _ hp => absurd hp List.not_mem_nil
  | cons p parts ih =>
    rw [List.forall_mem_cons]
    constructor
    · rintro ⟨total, htotal⟩
      rw [List.foldlM_cons, Answered.bind_eq_ok] at htotal
      obtain ⟨next, hnext, htotal⟩ := htotal
      obtain ⟨track, m, htrack, hm, _⟩ := serve_eq_ok.mp hnext
      exact ⟨⟨track, m, htrack, hm⟩, (ih next).mp ⟨total, htotal⟩⟩
    · rintro ⟨⟨track, m, htrack, hm⟩, hrest⟩
      have hnext : serve points served p = .ok (served + Decimal.ofInt p.custodialDays * m) :=
        serve_eq_ok.mpr ⟨track, m, htrack, hm, rfl⟩
      obtain ⟨total, htotal⟩ := (ih _).mpr hrest
      refine ⟨total, ?_⟩
      rw [List.foldlM_cons, hnext]
      exact htotal

/-- **The days to release of components that count days**, where there is room. -/
theorem daysToRelease_of_room {track : Track} (hrecall : track ≠ .recall) {a : Aggregate}
    {ss : List Single} (hspans : List.Forall₂ Part.Spans a.parts ss)
    (hroom : points.HasRoom ss places) {n : Int} (h : daysToRelease points track a = .ok n) :
    n = ⌈(ss.map points.shareOf).sum⌉ := by
  rw [daysToRelease, if_neg hrecall, Answered.bind_eq_ok] at h
  obtain ⟨total, htotal, hceil⟩ := h
  rw [ceilDays_eq_ok hceil, servedDays_value_of_room hspans hroom htotal]

end Sentence

/-! ## Without room -/

namespace EnglandAndWales

/-- The fractions of sentences that are served, with one for early release that takes up all the
places there are. -/
def preciseReleasePointsText : String :=
  "\n".intercalate [
    "multipliers:",
    "  sds_standard_release: \"0.5\"",
    "  sds_early_release: \"0.9500000000000000000000000001\"",
    "  sds_plus_release: \"0.66666\"",
    "  eds_automatic_release: \"0.66666\"",
    "  eds_discretionary_release: \"1.0\"",
    "  recall: \"1.0\"",
    "  botus: \"1.0\"",
    "parole_eligibility_multipliers:",
    "  eds_discretionary_release: \"0.66666\"",
    "licence_threshold_months: 12"]

/-- The configuration with such a fraction. -/
def preciseConfig : Config :=
  { config with
    releasePoints := { releasePoints with
      multipliers := Table.ofList [(.sdsStandard, ⟨5, 1⟩),
        (.sdsEarly, ⟨9500000000000000000000000001, 28⟩), (.sdsPlus, ⟨66666, 5⟩),
        (.edsAutomatic, ⟨66666, 5⟩), (.edsDiscretionary, ⟨10, 1⟩), (.recall, ⟨10, 1⟩),
        (.botus, ⟨10, 1⟩)] } }

theorem releasePoints?_preciseText : (Yaml.ofText? preciseReleasePointsText).bind
    Config.releasePoints? = some preciseConfig.releasePoints := by
  simp only [Yaml.ofText?, Yaml.lines?, preciseReleasePointsText, String.toList_intercalate,
    List.map_cons, List.map_nil]
  repeat rw [String.toList_ofList]
  decide +kernel

theorem preciseConfig_usable : preciseConfig.Usable := by
  rw [← Config.check_eq_ok_iff]
  decide +kernel

/-- Such a configuration is loaded. -/
theorem load_preciseText (directory : String) :
    Config.load directory (fun file => some (withReleasePoints preciseReleasePointsText file))
      = .ok preciseConfig :=
  load_withReleasePoints directory releasePoints?_preciseText preciseConfig_usable

end EnglandAndWales

end Custody
