import Custody.Proofs.Outcome.Latest

/-!
# The dates of a booking

What is recorded of the units of a booking: its expiry, its release, and then one date after the
other of kinds that are all different. Each date is found where it was put, so what the booking has
of a kind is what was recorded of that kind.

* **`Outcome.recordAll`**: dates recorded one after the other, kind by kind.
* **`Outcome.ofBreakdowns_eq`**: the dates of a booking are recorded in this way.
* **`Outcome.ofUnits_extracted`**: one expiry date, at most one release date, and curfew and removal
  before release.
-/

namespace Custody

open Custody.Calendar

namespace Outcome

/-! ## Release and expiry of an outcome -/

/-- The release date: the later of conditional and automatic release where there are both. -/
def latestRelease? (o : Outcome) : Option Date :=
  match o.date? .crd, o.date? .ard with
  | some crd, some ard => some (max crd ard)
  | some crd, none => some crd
  | none, ard => ard

/-- Where the sentence expires, with the licence or else on its own. -/
def expiryDate? (o : Outcome) : Option Date :=
  (o.date? .sled).orElse fun _ => o.date? .sed

/-- Release is of one kind alone, and on a date. -/
def ReleasedOn (o : Outcome) (kind : DateKind) (d : Date) : Prop :=
  kind.IsRelease ∧ ∀ j : DateKind, j.IsRelease → o.date? j = if j = kind then some d else none

namespace ReleasedOn

variable {o : Outcome} {kind : DateKind} {d : Date}

theorem releaseDate?_eq (h : o.ReleasedOn kind d) : o.releaseDate? = some d := by
  rw [releaseDate?, h.2 .crd (.inl rfl), h.2 .ard (.inr rfl)]
  rcases h.1 with rfl | rfl <;> rfl

theorem latestRelease?_eq (h : o.ReleasedOn kind d) : o.latestRelease? = some d := by
  rw [latestRelease?, h.2 .crd (.inl rfl), h.2 .ard (.inr rfl)]
  rcases h.1 with rfl | rfl <;> rfl

theorem date?_eq (h : o.ReleasedOn kind d) : o.date? kind = some d := by
  rw [h.2 kind h.1, if_pos rfl]

theorem unique (h : o.ReleasedOn kind d) {j : DateKind} {e : Date} (h' : o.ReleasedOn j e) :
    d = e := by
  have hd := h.releaseDate?_eq
  rw [h'.releaseDate?_eq] at hd
  exact (Option.some.inj hd).symm

end ReleasedOn

/-- Where there is release of both kinds it is the later of the two. -/
theorem latestRelease?_of_both {o : Outcome} {j k : DateKind} (hj : j.IsRelease) (hk : k.IsRelease)
    (hne : j ≠ k) {a b : Date} (ha : o.date? j = some a) (hb : o.date? k = some b) :
    ∃ r, o.latestRelease? = some r ∧ r.day = max a.day b.day := by
  rw [latestRelease?]
  rcases hj with rfl | rfl
  · rcases hk with rfl | rfl
    · exact absurd rfl hne
    · rw [ha, hb]
      exact ⟨max a b, rfl, Date.day_max a b⟩
  · rcases hk with rfl | rfl
    · rw [ha, hb]
      exact ⟨max b a, rfl, (Date.day_max b a).trans (max_comm b.day a.day)⟩
    · exact absurd rfl hne

theorem latestRelease?_eq_none {o : Outcome} (h : ∀ j : DateKind, j.IsRelease → o.date? j = none) :
    o.latestRelease? = none := by
  rw [latestRelease?, h .crd (.inl rfl), h .ard (.inr rfl)]

/-! ## Recording dates one after the other -/

@[simp] theorem breakdown?_recordIfSome (o : Outcome) (kind j : DateKind) (b : Option Breakdown) :
    (o.recordIfSome kind b).breakdown? j
      = if j = kind then b.or (o.breakdown? j) else o.breakdown? j := by
  cases b with
  | none => simp [recordIfSome]
  | some b => simp [recordIfSome, record, breakdown?]

/-- Records what there is of each kind, one after the other. -/
def recordAll (o : Outcome) (entries : List (DateKind × Option Breakdown)) : Outcome :=
  entries.foldl (fun o entry => o.recordIfSome entry.1 entry.2) o

section RecordAll

variable {entries : List (DateKind × Option Breakdown)}

theorem InStep.recordAll {o : Outcome} (h : o.InStep) : (o.recordAll entries).InStep := by
  induction entries generalizing o with
  | nil => exact h
  | cons entry entries ih => exact ih (h.recordIfSome entry.1 entry.2)

/-- What recording a date does not change, recording many does not. -/
theorem recordAll_preserves {β : Type} {g : Outcome → β}
    (hrecord : ∀ o kind b, g (record o kind b) = g o) (o : Outcome) :
    g (o.recordAll entries) = g o := by
  have hstep (o : Outcome) (kind : DateKind) (b : Option Breakdown) :
      g (o.recordIfSome kind b) = g o := by
    cases b with
    | none => rfl
    | some b => exact hrecord o kind b
  induction entries generalizing o with
  | nil => rfl
  | cons entry entries ih => exact (ih _).trans (hstep o entry.1 entry.2)

section Lookup

variable {β : Type} {g : Outcome → DateKind → Option β} {f : Breakdown → β}
  (hstep : ∀ o kind j b,
    g (o.recordIfSome kind b) j = if j = kind then (b.map f).or (g o j) else g o j)

include hstep

/-- A look-up that one recording changes for its own kind alone finds what was there before of the
kinds that are not recorded. -/
theorem lookup_recordAll_of_notMem {o : Outcome} {kind : DateKind}
    (h : kind ∉ entries.map Prod.fst) : g (o.recordAll entries) kind = g o kind := by
  induction entries generalizing o with
  | nil => rfl
  | cons entry entries ih =>
    rw [List.map_cons, List.mem_cons, not_or] at h
    show g ((o.recordIfSome entry.1 entry.2).recordAll entries) kind = _
    rw [ih h.2, hstep, if_neg h.1]

/-- Of the others it finds what was recorded, if anything was. -/
theorem lookup_recordAll_of_mem {o : Outcome} {kind : DateKind} {b : Option Breakdown}
    (hnodup : (entries.map Prod.fst).Nodup) (h : (kind, b) ∈ entries) :
    g (o.recordAll entries) kind = (b.map f).or (g o kind) := by
  induction entries generalizing o with
  | nil => cases h
  | cons entry entries ih =>
    rw [List.map_cons, List.nodup_cons] at hnodup
    show g ((o.recordIfSome entry.1 entry.2).recordAll entries) kind = _
    -- no later entry is of the kind of the first, so what the first records stays
    rcases List.mem_cons.mp h with rfl | h
    · rw [lookup_recordAll_of_notMem hstep hnodup.1, hstep, if_pos rfl]
    · have hne : kind ≠ entry.1 := by
        rintro rfl
        exact hnodup.1 (List.mem_map.mpr ⟨_, h, rfl⟩)
      rw [ih hnodup.2 h, hstep, if_neg hne]

end Lookup

theorem date?_recordAll_of_notMem {o : Outcome} {kind : DateKind}
    (h : kind ∉ entries.map Prod.fst) : (o.recordAll entries).date? kind = o.date? kind :=
  lookup_recordAll_of_notMem date?_recordIfSome h

theorem date?_recordAll_of_mem {o : Outcome} {kind : DateKind} {b : Option Breakdown}
    (hnodup : (entries.map Prod.fst).Nodup) (h : (kind, b) ∈ entries) :
    (o.recordAll entries).date? kind = (b.map Breakdown.releaseDate).or (o.date? kind) :=
  lookup_recordAll_of_mem date?_recordIfSome hnodup h

theorem breakdown?_recordAll_of_notMem {o : Outcome} {kind : DateKind}
    (h : kind ∉ entries.map Prod.fst) :
    (o.recordAll entries).breakdown? kind = o.breakdown? kind :=
  lookup_recordAll_of_notMem (f := id) (by simp) h

theorem breakdown?_recordAll_of_mem {o : Outcome} {kind : DateKind} {b : Option Breakdown}
    (hnodup : (entries.map Prod.fst).Nodup) (h : (kind, b) ∈ entries) :
    (o.recordAll entries).breakdown? kind = b.or (o.breakdown? kind) := by
  have hfound := lookup_recordAll_of_mem (o := o) (g := breakdown?) (f := id) (by simp) hnodup h
  rwa [Option.map_id_fun, id_eq] at hfound

end RecordAll

/-- Records the release of a booking, if it has one. -/
def recordRelease (o : Outcome) (release : Option (DateKind × Breakdown)) : Outcome :=
  match release with
  | some (kind, b) => o.record kind b
  | none => o

variable {units : List UnitCalculation}

/-- What is recorded of units after their expiry and release. -/
def otherEntries (expiry : Breakdown) (units : List UnitCalculation) :
    List (DateKind × Option Breakdown) :=
  let releaseDate := (release? units).map (·.2.releaseDate)
  let curfew (k : Curfew) :=
    (k.kind, beforeRelease releaseDate (latestRaised? k.kind k.concurrentRelease units))
  [(.ped, latestRaised? .ped .pedConcurrentRelease units),
    curfew .hdced,
    curfew .hdced4plus,
    (.ersed, beforeRelease releaseDate (latest? [.ersed] units)),
    (.tused, (latest? [.tused] units).filter fun b => expiry.releaseDate < b.releaseDate),
    (.prrd, latest? [.prrd] units)]

/-- **The dates of a booking are recorded one after the other.** -/
theorem ofBreakdowns_eq (expiry : Breakdown) (units : List UnitCalculation) :
    ofBreakdowns expiry units
      = ((empty.recordExpiry expiry (latest? [.sled, .led] units)).recordRelease
          (release? units)).recordAll (otherEntries expiry units) := rfl

/-! ## Expiry -/

theorem InStep.recordExpiry {o : Outcome} (h : o.InStep) (expiry : Breakdown)
    (licence : Option Breakdown) : (o.recordExpiry expiry licence).InStep := by
  simp only [Outcome.recordExpiry]
  split
  · split
    · exact h.record .sled expiry
    · exact (h.record .sed expiry).record .led _
  · exact h.record .sed expiry

theorem date?_recordExpiry (o : Outcome) (expiry : Breakdown) (licence : Option Breakdown)
    {kind : DateKind} (hkind : kind ∉ [DateKind.sled, .sed, .led]) :
    (o.recordExpiry expiry licence).date? kind = o.date? kind := by
  simp only [List.mem_cons, List.not_mem_nil, or_false, not_or] at hkind
  obtain ⟨hsled, hsed, hled⟩ := hkind
  simp only [recordExpiry]
  split
  · split
    · rw [date?_record, if_neg hsled]
    · rw [date?_record, if_neg hled, date?_record, if_neg hsed]
  · rw [date?_record, if_neg hsed]

theorem expiryDate?_recordExpiry (expiry : Breakdown) (licence : Option Breakdown) :
    (empty.recordExpiry expiry licence).expiryDate? = some expiry.releaseDate := by
  simp only [recordExpiry]
  split
  · split <;> rfl
  · rfl

theorem expiryDate?_congr {o o' : Outcome}
    (h : ∀ kind : DateKind, kind.IsExpiry → o'.date? kind = o.date? kind) :
    o'.expiryDate? = o.expiryDate? := by
  rw [expiryDate?, expiryDate?, h .sled (.inl rfl), h .sed (.inr rfl)]

/-! ## Release -/

theorem InStep.recordRelease {o : Outcome} (h : o.InStep)
    (release : Option (DateKind × Breakdown)) :
    (o.recordRelease release).InStep := by
  cases release with
  | none => exact h
  | some r => exact h.record r.1 r.2

theorem date?_recordRelease (o : Outcome) (release : Option (DateKind × Breakdown))
    (kind : DateKind) :
    (o.recordRelease release).date? kind
      = (release.bind fun r => if kind = r.1 then some r.2.releaseDate else none).or
          (o.date? kind) := by
  cases release with
  | none => rfl
  | some r =>
    rw [recordRelease, date?_record, Option.bind_some]
    split <;> rfl

/-- The release of the units is of a kind of release. -/
theorem date?_recordRelease_of_not {kind : DateKind} (hkind : ¬ kind.IsRelease) (o : Outcome) :
    (o.recordRelease (release? units)).date? kind = o.date? kind := by
  rw [date?_recordRelease]
  cases h : release? units with
  | none => rfl
  | some r =>
    rw [Option.bind_some, if_neg, Option.none_or]
    rintro rfl
    exact hkind (release?_eq_some h).1

/-! ## The dates of the units -/

theorem ofBreakdowns_inStep (expiry : Breakdown) (units : List UnitCalculation) :
    (ofBreakdowns expiry units).InStep := by
  rw [ofBreakdowns_eq]
  have hempty : empty.InStep := Custody.InStep.empty
  exact ((hempty.recordExpiry _ _).recordRelease _).recordAll

theorem map_fst_otherEntries (expiry : Breakdown) (units : List UnitCalculation) :
    (otherEntries expiry units).map Prod.fst
      = [.ped, .hdced, .hdced4plus, .ersed, .tused, .prrd] := rfl

/-- Nothing is recorded of expiry and licence after they have been. -/
theorem date?_ofBreakdowns_expiry (expiry : Breakdown) (units : List UnitCalculation)
    {kind : DateKind} (hkind : kind ∈ [DateKind.sled, .sed, .led]) :
    (ofBreakdowns expiry units).date? kind
      = (empty.recordExpiry expiry (latest? [.sled, .led] units)).date? kind := by
  have hkinds : ∀ kind ∈ [DateKind.sled, .sed, .led], kind ∉ [DateKind.crd, .ard]
      ∧ kind ∉ [DateKind.ped, .hdced, .hdced4plus, .ersed, .tused, .prrd] := by decide
  obtain ⟨hrelease, hother⟩ := hkinds kind hkind
  rw [ofBreakdowns_eq, date?_recordAll_of_notMem (by rwa [map_fst_otherEntries]),
    date?_recordRelease_of_not]
  rintro (rfl | rfl) <;> exact absurd hrelease (by decide)

theorem expiryDate?_ofBreakdowns (expiry : Breakdown) (units : List UnitCalculation) :
    (ofBreakdowns expiry units).expiryDate? = some expiry.releaseDate := by
  rw [← expiryDate?_recordExpiry expiry (latest? [.sled, .led] units)]
  refine expiryDate?_congr fun kind hkind => date?_ofBreakdowns_expiry expiry units ?_
  rcases hkind with rfl | rfl <;> decide

theorem date?_ofBreakdowns_release (expiry : Breakdown) (units : List UnitCalculation)
    {kind : DateKind} (hkind : kind.IsRelease) :
    (ofBreakdowns expiry units).date? kind
      = (release? units).bind fun r => if kind = r.1 then some r.2.releaseDate else none := by
  rw [ofBreakdowns_eq, date?_recordAll_of_notMem, date?_recordRelease, date?_recordExpiry]
  · exact Option.or_none
  · rcases hkind with rfl | rfl <;> decide
  · rw [map_fst_otherEntries]
    rcases hkind with rfl | rfl <;> decide

theorem beforeRelease_eq_some {release : Option Date} {b : Option Breakdown} {kept : Breakdown}
    (h : beforeRelease release b = some kept) :
    b = some kept ∧ ∀ d, release = some d → kept.releaseDate.day < d.day := by
  rw [beforeRelease, Option.filter_eq_some_iff] at h
  refine ⟨h.1, ?_⟩
  rintro d rfl
  simpa [Date.lt_iff] using h.2

/-- What is found of a kind that comes after release is what was recorded of it. -/
theorem date?_ofBreakdowns_of_mem {expiry : Breakdown} {kind : DateKind} {b : Option Breakdown}
    (h : (kind, b) ∈ otherEntries expiry units) :
    (ofBreakdowns expiry units).date? kind = b.map Breakdown.releaseDate := by
  have hkind : kind ∈ (otherEntries expiry units).map Prod.fst := List.mem_map_of_mem h
  rw [map_fst_otherEntries] at hkind
  have hkinds : ∀ kind ∈ [DateKind.ped, .hdced, .hdced4plus, .ersed, .tused, .prrd],
      kind ∉ [DateKind.crd, .ard] ∧ kind ∉ [DateKind.sled, .sed, .led] := by decide
  obtain ⟨hrelease, hexpiry⟩ := hkinds kind hkind
  rw [ofBreakdowns_eq, date?_recordAll_of_mem (by rw [map_fst_otherEntries]; decide) h,
    date?_recordRelease_of_not, date?_recordExpiry _ _ _ hexpiry, date?_empty, Option.or_none]
  rintro (rfl | rfl) <;> exact absurd hrelease (by decide)

/-- **Curfew and removal are before release.** They are there only when a unit has them. -/
theorem ofBreakdowns_isEligibility {expiry : Breakdown} {kind : DateKind} {d : Date}
    (hkind : kind.IsEligibility) (h : (ofBreakdowns expiry units).date? kind = some d) :
    latest? [kind] units ≠ none ∧ ∀ r, release? units = some r → d.day < r.2.releaseDate.day := by
  -- each of the kinds has an entry of its own, held back in the same way
  have hentry : ∃ b, (kind, beforeRelease ((release? units).map (·.2.releaseDate)) b)
      ∈ otherEntries expiry units ∧ (latest? [kind] units = none → b = none) := by
    rcases hkind with rfl | rfl | rfl
    · exact ⟨latestRaised? .hdced .hdcedConcurrentRelease units, .tail _ (.head _),
        fun h => by rw [latestRaised?, h, Option.map_none]⟩
    · exact ⟨latestRaised? .hdced4plus .hdced4plusConcurrentRelease units,
        .tail _ (.tail _ (.head _)), fun h => by rw [latestRaised?, h, Option.map_none]⟩
    · exact ⟨latest? [.ersed] units, .tail _ (.tail _ (.tail _ (.head _))), id⟩
  obtain ⟨b, hmem, hnone⟩ := hentry
  rw [date?_ofBreakdowns_of_mem hmem, Option.map_eq_some_iff] at h
  obtain ⟨kept, hkept, rfl⟩ := h
  obtain ⟨rfl, hlt⟩ := beforeRelease_eq_some hkept
  refine ⟨fun hlatest => ?_, fun r hr => hlt _ (by rw [hr, Option.map_some])⟩
  cases hnone hlatest

/-! ## The outcome of a pass -/

/-- What an outcome has of the units it is of. -/
structure Extracted (units : List UnitCalculation) (o : Outcome) : Prop where
  inStep : o.InStep
  /-- There is no release, or it is the one of the units. -/
  release : release? units = none ∧ (∀ kind : DateKind, kind.IsRelease → o.date? kind = none)
    ∨ ∃ kind b, release? units = some (kind, b) ∧ o.ReleasedOn kind b.releaseDate
  expiry : ∃ b, latest? [.sled, .sed] units = some b ∧ o.expiryDate? = some b.releaseDate
  eligibility : ∀ kind : DateKind, kind.IsEligibility → ∀ d, o.date? kind = some d →
    latest? [kind] units ≠ none ∧ ∀ r, release? units = some r → d.day < r.2.releaseDate.day

theorem Extracted.one_release {o : Outcome} (h : Extracted units o) :
    o.date? .crd = none ∨ o.date? .ard = none := by
  rcases h.release with ⟨_, hnone⟩ | ⟨kind, b, _, hkind, hdates⟩
  · exact .inl (hnone .crd (.inl rfl))
  · rcases hkind with rfl | rfl
    · exact .inr (hdates .ard (.inr rfl))
    · exact .inl (hdates .crd (.inl rfl))

/-- What an outcome is made of. -/
theorem ofUnits_eq_ok {o : Outcome} : ofUnits units = .ok o
    ↔ ∃ earliest expiry esed stop, (units.map UnitCalculation.sentencedAt).min? = some earliest
      ∧ latest? [.sled, .sed] units = some expiry
      ∧ (units.filterMap UnitCalculation.unadjustedExpiryDate?).max? = some esed
      ∧ esed.plusDays 1 = .ok stop
      ∧ o = { ofBreakdowns expiry units with
        otherDates := (ofBreakdowns expiry units).otherDates.insert .esed esed
        effectiveLength := Duration.between earliest stop } := by
  simp only [ofUnits, Answered.bind_eq_ok, Answered.orFail_eq_ok, Answered.pure_eq_ok]
  constructor
  · rintro ⟨earliest, hearliest, expiry, hexpiry, esed, hesed, stop, hstop, rfl⟩
    exact ⟨earliest, expiry, esed, stop, hearliest, hexpiry, hesed, hstop, rfl⟩
  · rintro ⟨earliest, expiry, esed, stop, hearliest, hexpiry, hesed, hstop, rfl⟩
    exact ⟨earliest, hearliest, expiry, hexpiry, esed, hesed, stop, hstop, rfl⟩

/-- What recording a date does not change is as it is without dates. -/
theorem ofBreakdowns_preserves {β : Type} {g : Outcome → β}
    (hrecord : ∀ o kind b, g (Outcome.record o kind b) = g o) (expiry : Breakdown)
    (units : List UnitCalculation) : g (ofBreakdowns expiry units) = g empty := by
  have hrelease (o : Outcome) (release : Option (DateKind × Breakdown)) :
      g (o.recordRelease release) = g o := by
    cases release with
    | none => rfl
    | some r => exact hrecord o r.1 r.2
  -- all that is done to the outcome is to record dates
  rw [ofBreakdowns_eq, recordAll_preserves hrecord, hrelease]
  unfold recordExpiry
  split
  · split
    · exact hrecord _ _ _
    · rw [hrecord, hrecord]
  · exact hrecord _ _ _

/-- Dates for comparison are not among those recorded. -/
theorem otherDates_ofBreakdowns (expiry : Breakdown) (units : List UnitCalculation) :
    (ofBreakdowns expiry units).otherDates = Table.empty :=
  ofBreakdowns_preserves (fun _ _ _ => rfl) expiry units

/-- A pass leaves a booking outside of the early release scheme. -/
theorem tranche_ofUnits {o : Outcome} (h : ofUnits units = .ok o) : o.tranche = .tranche0 := by
  obtain ⟨_, expiry, _, _, _, _, _, _, rfl⟩ := ofUnits_eq_ok.mp h
  exact ofBreakdowns_preserves (g := tranche) (fun _ _ _ => rfl) expiry units

/-- **What the units come to.** -/
theorem ofUnits_extracted {o : Outcome} (h : ofUnits units = .ok o) : Extracted units o := by
  obtain ⟨_, expiry, _, _, _, hexpiry, _, _, rfl⟩ := ofUnits_eq_ok.mp h
  have hrelease {kind : DateKind} (hkind : kind.IsRelease) :=
    date?_ofBreakdowns_release expiry units hkind
  refine ⟨ofBreakdowns_inStep expiry units, ?_,
    ⟨expiry, hexpiry, expiryDate?_ofBreakdowns expiry units⟩,
    fun kind hkind d hd => ofBreakdowns_isEligibility hkind hd⟩
  -- nothing after the release is of its kinds, so it is found as it was recorded
  cases hr : release? units with
  | none =>
    refine .inl ⟨rfl, fun kind hkind => (hrelease hkind).trans ?_⟩
    rw [hr, Option.bind_none]
  | some r =>
    refine .inr ⟨r.1, r.2, rfl, (release?_eq_some hr).1, fun j hj => (hrelease hj).trans ?_⟩
    rw [hr, Option.bind_some]

end Outcome

end Custody
