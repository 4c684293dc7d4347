import Custody.Config.EnglandAndWales
import Custody.Proofs.Decimal.Room
import Custody.Proofs.Sentence.Contiguity
import Custody.Proofs.Sentence.Tracks
import Custody.Proofs.Total
import Custody.Unit.Release

/-!
# The days to release

The days to release are the fractions of the custodial terms, added up and rounded up once. The sum
is that of rational numbers where the decimals have room for all shares together. They always have
with fractions of a few places (`ReleasePoints.AreShort`), so that the days to release lie between
zero and the whole length. With fractions of any number of places
(`ReleasePoints.AreFractions`) each sum may be rounded, and still smaller fractions never give more
days.

* **`servedDays_value_of_inSteps`**: the sum is exact where there is room.
* **`servedDays_value`**: the sum of short fractions is exact.
* **`daysToRelease_bounds`**: release is not before the start and not after the end.
* **`daysToRelease_le_of_eased`**: under early release there are no more days to release.
-/

namespace Custody

open Custody.Calendar

/-! ## Fractions -/

namespace ReleasePoints

/-- The fraction that is served on a track, as a number; zero where none is set. -/
def fraction (points : ReleasePoints) (track : Track) : ℚ :=
  ((points.multipliers.get? track).map Decimal.value).getD 0

/-- The fraction of every track is from zero to one. -/
structure AreFractions (points : ReleasePoints) : Prop where
  fraction_nonneg : ∀ track, 0 ≤ points.fraction track
  fraction_le_one : ∀ track, points.fraction track ≤ 1

/-- Every track has a fraction from zero to one that is written with at most five places. -/
structure AreShort (points : ReleasePoints) : Prop where
  exists_places_le : ∀ track, ∃ m, points.multipliers.get? track = some m ∧ m.places ≤ 5
  fraction_nonneg : ∀ track, 0 ≤ points.fraction track
  fraction_le_one : ∀ track, points.fraction track ≤ 1

/-- The days that are served of a part. -/
def share (points : ReleasePoints) (p : Part) : ℚ :=
  (p.custodialDays : ℚ) * (p.track.map points.fraction).getD 0

variable {points : ReleasePoints}

theorem AreShort.areFractions (h : points.AreShort) : points.AreFractions :=
  ⟨h.fraction_nonneg, h.fraction_le_one⟩

theorem fraction_eq_of_multiplierFor {track : Track} {m : Decimal}
    (hm : points.multiplierFor track = .ok m) : points.fraction track = m.value := by
  rw [multiplierFor, Answered.orFail_eq_ok] at hm
  rw [fraction, hm, Option.map_some, Option.getD_some]

/-- A share is a whole number of steps of the fifth place. -/
theorem AreShort.share_inSteps (h : points.AreShort) (p : Part) :
    Decimal.InSteps 5 (points.share p) := by
  refine Decimal.InSteps.int_mul p.custodialDays ?_
  cases p.track with
  | none => exact .zero 5
  | some track =>
    obtain ⟨m, hm, hplaces⟩ := h.exists_places_le track
    rw [Option.map_some, Option.getD_some, fraction, hm]
    exact m.value_inSteps hplaces

theorem AreShort.share_bounds (h : points.AreShort) {p : Part} (hp : 0 ≤ p.custodialDays) :
    0 ≤ points.share p ∧ points.share p ≤ p.custodialDays := by
  have hdays : (0 : ℚ) ≤ p.custodialDays := by exact_mod_cast hp
  rw [share]
  cases p.track with
  | none =>
    simp only [Option.map_none, Option.getD_none, mul_zero]
    exact ⟨le_rfl, hdays⟩
  | some track =>
    simp only [Option.map_some, Option.getD_some]
    exact ⟨mul_nonneg hdays (h.fraction_nonneg track),
      mul_le_of_le_one_right hdays (h.fraction_le_one track)⟩

end ReleasePoints

/-! ## The sum -/

namespace Sentence

variable {points : ReleasePoints} {places : Nat}

/-- The days that are served of one more part, added to those before. -/
def serve (points : ReleasePoints) (served : Decimal) (part : Part) : Answered Decimal := do
  let track ← orFail part.track (.breach .componentNotClassified)
  let multiplier ← points.multiplierFor track
  return served + Decimal.ofInt part.custodialDays * multiplier

theorem servedDays_eq_foldlM (parts : List Part) :
    servedDays points parts = parts.foldlM (serve points) 0 := rfl

theorem serve_eq_ok {part : Part} {served total : Decimal} :
    serve points served part = .ok total ↔ ∃ track m, part.track = some track
      ∧ points.multiplierFor track = .ok m
      ∧ total = served + Decimal.ofInt part.custodialDays * m := by
  simp only [serve, Answered.bind_eq_ok, Answered.orFail_eq_ok, Answered.pure_eq_ok]
  constructor
  · rintro ⟨track, htrack, m, hm, rfl⟩
    exact ⟨track, m, htrack, hm, rfl⟩
  · rintro ⟨track, m, htrack, hm, rfl⟩
    exact ⟨track, htrack, m, hm, rfl⟩

theorem sum_abs_nonneg (xs : List ℚ) : 0 ≤ (xs.map fun x => |x|).sum := by
  refine List.sum_nonneg fun x hx => ?_
  obtain ⟨y, _, rfl⟩ := List.mem_map.mp hx
  exact abs_nonneg y

/-- Adding up the shares of parts, by induction on the parts with what has been added up so far: the
running sum stays within the room that there is for all of them. -/
theorem foldlM_served_of_room (hplaces : places ≤ Decimal.maxPlaces) {parts : List Part}
    {served total : Decimal} (hserved : Decimal.InSteps places served.value)
    (hsteps : ∀ p ∈ parts, Decimal.InSteps places (points.share p))
    (hroom : (|served.value| + ((parts.map points.share).map fun x => |x|).sum)
      * Decimal.scale places ≤ Decimal.maxMantissa)
    (h : parts.foldlM (serve points) served = .ok total) :
    total.value = served.value + (parts.map points.share).sum := by
  induction parts generalizing served with
  | nil =>
    rw [List.foldlM_nil, Answered.pure_eq_ok] at h
    rw [List.map_nil, List.sum_nil, add_zero, h]
  | cons p parts ih =>
    rw [List.forall_mem_cons] at hsteps
    rw [List.foldlM_cons, Answered.bind_eq_ok] at h
    obtain ⟨next, hnext, h⟩ := h
    obtain ⟨track, m, htrack, hm, rfl⟩ := serve_eq_ok.mp hnext
    have hshare : points.share p = (Decimal.ofInt p.custodialDays).value * m.value := by
      rw [ReleasePoints.share, htrack, Option.map_some, Option.getD_some,
        ReleasePoints.fraction_eq_of_multiplierFor hm, Decimal.value_ofInt]
    rw [List.map_cons, List.map_cons, List.sum_cons] at hroom
    have hscale := (Decimal.scale_pos' places).le
    have hrest := sum_abs_nonneg (parts.map points.share)
    have hbefore := abs_nonneg served.value
    have htriangle := abs_add_le served.value (points.share p)
    -- there is room for the share, and for the sum with it
    have hproduct : (Decimal.ofInt p.custodialDays * m).value = points.share p := by
      rw [hshare] at hsteps hroom ⊢
      refine Decimal.value_mul_of_room hplaces hsteps.1 (le_trans ?_ hroom)
      exact mul_le_mul_of_nonneg_right (by linarith) hscale
    have hsum : (served + Decimal.ofInt p.custodialDays * m).value
        = served.value + points.share p := by
      have hroom' : |served.value + points.share p| * Decimal.scale places
          ≤ Decimal.maxMantissa :=
        (mul_le_mul_of_nonneg_right (by linarith) hscale).trans hroom
      rw [← hproduct] at hsteps hroom' ⊢
      exact Decimal.value_add_of_room hplaces (hserved.add hsteps.1) hroom'
    have hnextRoom : (|(served + Decimal.ofInt p.custodialDays * m).value|
        + ((parts.map points.share).map fun x => |x|).sum) * Decimal.scale places
          ≤ Decimal.maxMantissa := by
      rw [hsum]
      exact (mul_le_mul_of_nonneg_right (by linarith) hscale).trans hroom
    rw [ih (by rw [hsum]; exact hserved.add hsteps.1) hsteps.2 hnextRoom h, hsum, List.map_cons,
      List.sum_cons, add_assoc]

/-- **The days that are served are added up exactly where there is room** for the shares of all
parts, whole numbers of steps of one place. -/
theorem servedDays_value_of_inSteps (hplaces : places ≤ Decimal.maxPlaces) {parts : List Part}
    {total : Decimal} (hsteps : ∀ p ∈ parts, Decimal.InSteps places (points.share p))
    (hroom : ((parts.map points.share).map fun x => |x|).sum * Decimal.scale places
      ≤ Decimal.maxMantissa)
    (h : servedDays points parts = .ok total) : total.value = (parts.map points.share).sum := by
  have hzero : Decimal.value 0 = 0 := Decimal.value_ofInt 0
  have hstart : Decimal.InSteps places (Decimal.value 0) := hzero ▸ .zero places
  rw [servedDays_eq_foldlM] at h
  rw [foldlM_served_of_room hplaces hstart hsteps (by rwa [hzero, abs_zero, zero_add]) h, hzero,
    zero_add]

theorem sum_share_bounds (hpoints : points.AreShort) {parts : List Part}
    (hdays : ∀ p ∈ parts, 0 ≤ p.custodialDays) :
    0 ≤ (parts.map points.share).sum
      ∧ (parts.map points.share).sum ≤ (totalOf Part.custodialDays parts : ℚ) := by
  induction parts with
  | nil => simp
  | cons p parts ih =>
    have hp := hpoints.share_bounds (hdays p List.mem_cons_self)
    have hrest := ih fun q hq => hdays q (List.mem_cons_of_mem p hq)
    rw [List.map_cons, List.sum_cons, totalOf_cons]
    push_cast
    constructor <;> linarith

/-- **Short fractions are added up exactly**, over any length that the range of dates has. -/
theorem servedDays_value (hpoints : points.AreShort) {start finish : Date} {parts : List Part}
    {total : Decimal} (hparts : Contiguous start parts finish)
    (h : servedDays points parts = .ok total) :
    total.value = (parts.map points.share).sum := by
  have hdays := hparts.custodialDays_nonneg
  -- no share is negative, and together they are within the range of dates
  have habs : (parts.map points.share).map (fun x => |x|) = parts.map points.share := by
    rw [List.map_map]
    exact List.map_congr_left fun p hp => abs_of_nonneg (hpoints.share_bounds (hdays p hp)).1
  have hle : (parts.map points.share).sum ≤ 200000000 := by
    refine (sum_share_bounds hpoints hdays).2.trans ?_
    exact_mod_cast hparts.custodialDays_le.trans (Date.daysUntil_le_range start finish)
  have hroom : ((parts.map points.share).map fun x => |x|).sum * Decimal.scale 5
      ≤ Decimal.maxMantissa := by
    rw [habs]
    refine (mul_le_mul_of_nonneg_right hle (Decimal.scale_pos' 5).le).trans ?_
    norm_num [Decimal.scale, Decimal.maxMantissa]
  exact servedDays_value_of_inSteps (by decide) (fun p _ => hpoints.share_inSteps p) hroom h

/-! ## Rounding up -/

theorem ceilDays_eq_ok {days : Decimal} {n : Int} (h : ceilDays days = .ok n) :
    n = ⌈days.value⌉ := by
  rw [ceilDays] at h
  split at h
  · cases h
    exact days.ceil_eq
  · cases h

theorem fits_of_ceilDays {days : Decimal} {n : Int} (h : ceilDays days = .ok n) :
    fits64 n = true := by
  rw [ceilDays] at h
  split at h
  · next hfits =>
    cases h
    exact hfits
  · cases h

theorem daysToRelease_cases (hpoints : points.AreShort) {track : Track} {a : Aggregate} {n : Int}
    (ha : Contiguous a.sentencedAt a.parts a.finish) (h : daysToRelease points track a = .ok n) :
    track = .recall ∧ n = a.totalDays
      ∨ track ≠ .recall ∧ n = ⌈(a.parts.map points.share).sum⌉ := by
  rw [daysToRelease] at h
  split at h
  · next htrack =>
    cases h
    exact .inl ⟨htrack, rfl⟩
  · next htrack =>
    obtain ⟨total, htotal, hceil⟩ := Answered.bind_eq_ok.mp h
    rw [ceilDays_eq_ok hceil, servedDays_value hpoints ha htotal]
    exact .inr ⟨htrack, rfl⟩

end Sentence

/-! ## Under both assumptions -/

/-- A part is as long as another, and on a track of no greater fraction. -/
def Part.NoLonger (points : ReleasePoints) (p q : Part) : Prop :=
  q.custodialDays = p.custodialDays
    ∧ Option.Rel (fun t t' => points.fraction t' ≤ points.fraction t) p.track q.track

theorem Part.NoLonger.refl (points : ReleasePoints) (p : Part) : p.NoLonger points p := by
  refine ⟨rfl, ?_⟩
  cases p.track with
  | none => exact .none
  | some track => exact .some le_rfl

/-- A part under the assumption of early release, beside the same part under the standard one. -/
def Part.Eased (standard early : Part) : Prop :=
  standard.untracked = early.untracked ∧ Option.Rel Track.Eased standard.track early.track

/-- The layouts of a sentence under the two assumptions differ in the tracks of the parts alone. -/
theorem ClassifiedAs.aggregate_eased {config : Config} {inputs : Inputs}
    {unit standard early : Sentence} {a b : Aggregate}
    (hs : ClassifiedAs config inputs .standard unit standard)
    (he : ClassifiedAs config inputs .early unit early)
    (ha : standard.aggregate = .ok a) (hb : early.aggregate = .ok b) :
    a.untracked = b.untracked ∧ List.Forall₂ Part.Eased a.parts b.parts := by
  have huntracked := Sentence.aggregate_eq_of_untracked_eq
    (hs.untracked_eq.trans he.untracked_eq.symm) ha hb
  refine ⟨huntracked, Answered.forall₂_and ?_ ?_⟩
  · have hparts : a.parts.map Part.untracked = b.parts.map Part.untracked :=
      congrArg Aggregate.parts huntracked
    rw [← List.forall₂_eq_eq_eq, List.forall₂_map_left_iff, List.forall₂_map_right_iff] at hparts
    exact hparts
  · -- the parts are on the tracks of the components, in the same order
    have htracks := hs.componentTracks_eased he
    have hrel : List.Forall₂ (Option.Rel Track.Eased) (a.parts.map Part.track)
        (b.parts.map Part.track) := by
      rw [Sentence.aggregate_tracks ha, Sentence.aggregate_tracks hb, hs.map_track_singles,
        he.map_track_singles, List.forall₂_map_left_iff, List.forall₂_map_right_iff]
      exact htracks.imp fun _ _ => .some
    rwa [List.forall₂_map_left_iff, List.forall₂_map_right_iff] at hrel

namespace Sentence

variable {points : ReleasePoints}

theorem noLonger_of_eased (hearly : points.fraction .sdsEarly ≤ points.fraction .sdsStandard)
    {p q : Part} (h : p.Eased q) : p.NoLonger points q := by
  obtain ⟨huntracked, hrel⟩ := h
  refine ⟨(congrArg Part.custodialDays huntracked.symm :), ?_⟩
  generalize p.track = t, q.track = t' at hrel
  cases hrel with
  | none => exact .none
  | some heased =>
    refine .some ?_
    cases heased with
    | same => exact le_rfl
    | early => exact hearly

/-- What is served of parts and of parts that are no longer, `n` days in all: the second total has
not got ahead of the first, nor either of the days. -/
structure ServedWithin (served served' : Decimal) (n : Nat) : Prop where
  stored : served.Stored
  stored' : served'.Stored
  le : served'.value ≤ served.value
  le_days : served.value ≤ n

theorem servedWithin_zero : ServedWithin 0 0 0 where
  stored := Decimal.Stored.ofNat (Nat.zero_le _)
  stored' := Decimal.Stored.ofNat (Nat.zero_le _)
  le := le_rfl
  le_days := (Decimal.value_ofInt 0).le

/-- One more part of `k` days is added on both sides. -/
theorem ServedWithin.serve (hpoints : points.AreFractions) {p q : Part}
    (hpart : p.NoLonger points q) {served served' next next' : Decimal} {n k : Nat}
    (h : ServedWithin served served' n) (hk : p.custodialDays = k)
    (hroom : n + k ≤ Decimal.maxMantissa) (hnext : Sentence.serve points served p = .ok next)
    (hnext' : Sentence.serve points served' q = .ok next') : ServedWithin next next' (n + k) := by
  obtain ⟨track, m, htrack, hm, rfl⟩ := serve_eq_ok.mp hnext
  obtain ⟨track', m', htrack', hm', rfl⟩ := serve_eq_ok.mp hnext'
  obtain ⟨hcustody, hrel⟩ := hpart
  rw [htrack, htrack'] at hrel
  obtain ⟨hle⟩ := hrel
  rw [hcustody, hk]
  have hfraction := ReleasePoints.fraction_eq_of_multiplierFor hm
  have hfraction' := ReleasePoints.fraction_eq_of_multiplierFor hm'
  have hmle : m'.value ≤ m.value := by
    rwa [← hfraction, ← hfraction']
  have hm0 : 0 ≤ m'.value := hfraction' ▸ hpoints.fraction_nonneg track'
  have hm1 : m.value ≤ 1 := hfraction ▸ hpoints.fraction_le_one track
  -- so its share of the days is, and the new totals can be stored
  have hk' : k ≤ Decimal.maxMantissa := by omega
  have hproduct : (k : ℚ) * m.value ≤ Decimal.maxMantissa :=
    (mul_le_of_le_one_right (Nat.cast_nonneg k) hm1).trans (by exact_mod_cast hk')
  have hshare := (Decimal.ofInt_mul_stored (hm0.trans hmle) hproduct).1
  have hshare' := (Decimal.ofInt_mul_stored (n := k) hm0
    ((mul_le_mul_of_nonneg_left hmle (Nat.cast_nonneg k)).trans hproduct)).1
  have hshareLe := Decimal.ofInt_mul_mono hm0 (le_refl k) hmle hproduct
  have hsum : served.value + (Decimal.ofInt k * m).value ≤ (n + k : Nat) := by
    push_cast
    exact add_le_add h.le_days (Decimal.ofInt_mul_le (hm0.trans hmle) hm1 hk')
  have hsumRoom : served.value + (Decimal.ofInt k * m).value ≤ Decimal.maxMantissa :=
    hsum.trans (by exact_mod_cast hroom)
  exact
    { stored := (h.stored.add hshare hsumRoom).1
      stored' := (h.stored'.add hshare' ((add_le_add h.le hshareLe).trans hsumRoom)).1
      le := h.stored'.add_mono hshare' h.stored hshare h.le hshareLe hsumRoom
      le_days := h.stored.add_le hshare hroom hsum }

/-- Adding up the days that are served, by induction on the parts of both sides. -/
theorem ServedWithin.foldlM (hpoints : points.AreFractions) {parts parts' : List Part}
    (hparts : List.Forall₂ (Part.NoLonger points) parts parts')
    (hdays : ∀ p ∈ parts, 0 ≤ p.custodialDays)
    {served served' total total' : Decimal} {n : Nat} (h : ServedWithin served served' n)
    (hroom : n + totalOf Part.custodialDays parts ≤ Decimal.maxMantissa)
    (htotal : parts.foldlM (Sentence.serve points) served = .ok total)
    (htotal' : parts'.foldlM (Sentence.serve points) served' = .ok total') :
    ∃ m : Nat, m = n + totalOf Part.custodialDays parts ∧ ServedWithin total total' m := by
  induction hparts generalizing served served' n with
  | nil =>
    cases htotal
    cases htotal'
    exact ⟨n, (Int.add_zero _).symm, h⟩
  | @cons p q parts parts' hpart _ ih =>
    rw [List.foldlM_cons, Answered.bind_eq_ok] at htotal htotal'
    obtain ⟨next, hnext, htotal⟩ := htotal
    obtain ⟨next', hnext', htotal'⟩ := htotal'
    obtain ⟨k, hk⟩ := Int.eq_ofNat_of_zero_le (hdays p List.mem_cons_self)
    have hrest : ∀ q ∈ parts, 0 ≤ q.custodialDays :=
      fun q hq => hdays q (List.mem_cons_of_mem p hq)
    have hrest' := totalOf_nonneg hrest
    rw [totalOf_cons, hk] at hroom ⊢
    -- one part on either side, and then the rest with the new totals
    have hstep := h.serve hpoints hpart hk (by omega) hnext hnext'
    rw [← Int.add_assoc]
    exact ih hrest hstep (by push_cast; omega) htotal htotal'

/-- **Of parts that are no longer there are no more days to release**, and never more than there are
days at all. -/
theorem daysToRelease_le (hpoints : points.AreFractions) {track track' : Track} {a b : Aggregate}
    {n n' : Int} (ha : Contiguous a.sentencedAt a.parts a.finish)
    (htotal : a.totalDays = b.totalDays)
    (hparts : List.Forall₂ (Part.NoLonger points) a.parts b.parts)
    (hrecall : track = .recall ↔ track' = .recall)
    (h : daysToRelease points track a = .ok n) (h' : daysToRelease points track' b = .ok n') :
    0 ≤ n' ∧ n' ≤ n ∧ n ≤ a.totalDays := by
  have hday := ha.day_le
  have hdays := ha.custodialDays_le
  have hrange := Date.daysUntil_le_range a.sentencedAt a.finish
  unfold daysToRelease at h h'
  by_cases hr : track = .recall
  · rw [if_pos hr] at h
    rw [if_pos (hrecall.mp hr)] at h'
    cases h
    cases h'
    rw [← htotal]
    simp only [Aggregate.totalDays, Date.daysUntil]
    omega
  · rw [if_neg hr] at h
    rw [if_neg (mt hrecall.mpr hr)] at h'
    obtain ⟨total, hserved, hceil⟩ := Answered.bind_eq_ok.mp h
    obtain ⟨total', hserved', hceil'⟩ := Answered.bind_eq_ok.mp h'
    -- the sums may be rounded, but alike, and the totals were never more than the days
    have hroom : (200000000 : Int) ≤ Decimal.maxMantissa := by decide
    obtain ⟨n, hn, hbound⟩ := servedWithin_zero.foldlM hpoints hparts
      ha.custodialDays_nonneg (by omega) hserved hserved'
    rw [Nat.cast_zero, Int.zero_add] at hn
    rw [ceilDays_eq_ok hceil, ceilDays_eq_ok hceil']
    refine ⟨Int.ceil_nonneg hbound.stored'.nonneg, Int.ceil_le_ceil hbound.le,
      Int.ceil_le.mpr (hbound.le_days.trans ?_)⟩
    exact_mod_cast hn.trans_le hdays

/-- **Release is not before the start and not after the end.** -/
theorem daysToRelease_bounds (hpoints : points.AreFractions) {track : Track} {a : Aggregate}
    {n : Int} (ha : Contiguous a.sentencedAt a.parts a.finish)
    (h : daysToRelease points track a = .ok n) : 0 ≤ n ∧ n ≤ a.totalDays := by
  have hparts : List.Forall₂ (Part.NoLonger points) a.parts a.parts :=
    List.forall₂_same.mpr fun p _ => .refl points p
  obtain ⟨hnonneg, _, hle⟩ := daysToRelease_le hpoints ha rfl hparts Iff.rfl h h
  exact ⟨hnonneg, hle⟩

/-- **Under early release there are no more days to release.** -/
theorem daysToRelease_le_of_eased (hpoints : points.AreFractions)
    (hearly : points.fraction .sdsEarly ≤ points.fraction .sdsStandard) {track track' : Track}
    {a b : Aggregate} {n n' : Int} (ha : Contiguous a.sentencedAt a.parts a.finish)
    (huntracked : a.untracked = b.untracked) (hparts : List.Forall₂ Part.Eased a.parts b.parts)
    (htracks : track = track' ∨ track.isSds = true ∧ track'.isSds = true)
    (h : daysToRelease points track a = .ok n) (h' : daysToRelease points track' b = .ok n') :
    0 ≤ n' ∧ n' ≤ n ∧ n ≤ a.totalDays := by
  have htotal : a.totalDays = b.totalDays :=
    (congrArg Aggregate.totalDays huntracked :)
  exact daysToRelease_le hpoints ha htotal (hparts.imp fun _ _ => noLonger_of_eased hearly)
    (Track.recall_iff_of_agree htracks) h h'

end Sentence

/-! ## England and Wales -/

namespace EnglandAndWales

theorem releasePoints_areShort : config.releasePoints.AreShort where
  exists_places_le track := by
    cases track <;> exact ⟨_, rfl, by decide⟩
  fraction_nonneg track := by
    cases track <;> decide +kernel
  fraction_le_one track := by
    cases track <;> decide +kernel

theorem fraction_early_le :
    config.releasePoints.fraction .sdsEarly ≤ config.releasePoints.fraction .sdsStandard := by
  decide +kernel

end EnglandAndWales

end Custody
