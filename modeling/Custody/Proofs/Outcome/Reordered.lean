import Custody.Proofs.Outcome.Dates

/-!
# Units in another order

Of equally late breakdowns the first is kept, so breakdowns depend on the order of the units. Their
dates do not. Each date of a booking is worked out here from the dates of the units alone, as the
latest of them, or a choice between two, and a latest date is the same in any order.

* **`map_latestOf?`**, **`map_release?`**, **`map_latestRaised?`**: dates from dates.
* **`dates_ofBreakdowns_perm`**: the dates of a booking.
* **`ofUnits_perm`**: when there is an outcome, and what does not depend on the order.
-/

namespace Custody

open Custody.Calendar

namespace Breakdown

@[simp] theorem releaseDate_raisedTo (b : Breakdown) (date : Date) (rule : Rule) :
    (b.raisedTo date rule).releaseDate = date := by
  unfold raisedTo
  simp

end Breakdown

namespace Outcome

variable {units units' : List UnitCalculation}

/-! ## Dates from dates -/

theorem map_latestOf? (bs : List Breakdown) :
    (latestOf? bs).map Breakdown.releaseDate = (bs.map Breakdown.releaseDate).max? := by
  cases h : latestOf? bs with
  | none =>
    rw [latestOf?_eq_none_iff.mp h]
    rfl
  | some b =>
    obtain ⟨hmem, hle⟩ := latestOf?_eq_some h
    symm
    rw [Option.map_some, List.max?_eq_some_iff]
    refine ⟨List.mem_map_of_mem hmem, fun d hd => ?_⟩
    obtain ⟨c, hc, rfl⟩ := List.mem_map.mp hd
    exact hle c hc

/-- The release of a booking, from the latest dates of release on licence and without. -/
def laterRelease (crd ard : Option Date) : Option (DateKind × Date) :=
  match crd, ard with
  | some crd, some ard => if crd < ard then some (.ard, ard) else some (.crd, crd)
  | some crd, none => some (.crd, crd)
  | none, some ard => some (.ard, ard)
  | none, none => none

theorem map_release? (units : List UnitCalculation) :
    (release? units).map (fun r => (r.1, r.2.releaseDate))
      = laterRelease ((latest? [.crd] units).map Breakdown.releaseDate)
          ((latest? [.ard] units).map Breakdown.releaseDate) := by
  unfold release?
  cases latest? [.crd] units with
  | none => cases latest? [.ard] units <;> rfl
  | some crd =>
    cases latest? [.ard] units with
    | none => rfl
    | some ard =>
      simp only [laterRelease, Option.map_some]
      split <;> rfl

/-- A date, put back to a release that is later. -/
def notBefore (release : Option Date) (d : Date) : Date :=
  match release with
  | some release => if d < release then release else d
  | none => d

theorem map_latestRaised? (kind : DateKind) (rule : Rule) (units : List UnitCalculation) :
    (latestRaised? kind rule units).map Breakdown.releaseDate
      = ((latest? [kind] units).map Breakdown.releaseDate).map
          (notBefore (concurrentRelease? kind units)) := by
  unfold latestRaised?
  rw [Option.map_map, Option.map_map]
  congr 1
  funext b
  cases concurrentRelease? kind units with
  | none => rfl
  | some release =>
    simp only [Function.comp_apply, notBefore]
    split <;> simp

theorem map_beforeRelease (release : Option Date) (b : Option Breakdown) :
    (beforeRelease release b).map Breakdown.releaseDate
      = (b.map Breakdown.releaseDate).filter fun d => release.all (d < ·) := by
  unfold beforeRelease
  rw [Option.filter_map]
  rfl

/-! ## In another order -/

theorem latest?_perm (hperm : units.Perm units') (kinds : List DateKind) :
    (latest? kinds units).map Breakdown.releaseDate
      = (latest? kinds units').map Breakdown.releaseDate := by
  unfold latest?
  rw [map_latestOf?, map_latestOf?]
  exact Date.max?_eq_of_perm ((hperm.filterMap _).map _)

theorem concurrentRelease?_perm (hperm : units.Perm units') (kind : DateKind) :
    concurrentRelease? kind units = concurrentRelease? kind units' :=
  Date.max?_eq_of_perm ((hperm.filter _).filterMap _)

theorem release?_perm (hperm : units.Perm units') :
    (release? units).map (fun r => (r.1, r.2.releaseDate))
      = (release? units').map (fun r => (r.1, r.2.releaseDate)) := by
  rw [map_release?, map_release?, latest?_perm hperm, latest?_perm hperm]

theorem latestRaised?_perm (hperm : units.Perm units') (kind : DateKind) (rule : Rule) :
    (latestRaised? kind rule units).map Breakdown.releaseDate
      = (latestRaised? kind rule units').map Breakdown.releaseDate := by
  rw [map_latestRaised?, map_latestRaised?, latest?_perm hperm, concurrentRelease?_perm hperm]

/-- What is recorded after expiry and release is of the same kinds and on the same dates. -/
theorem otherEntries_perm (hperm : units.Perm units') {expiry expiry' : Breakdown}
    (hexpiry : expiry.releaseDate = expiry'.releaseDate) :
    List.Forall₂ (fun e e' : DateKind × Option Breakdown => e.1 = e'.1
        ∧ e.2.map Breakdown.releaseDate = e'.2.map Breakdown.releaseDate)
      (otherEntries expiry units) (otherEntries expiry' units') := by
  have hrelease : (release? units).map (·.2.releaseDate)
      = (release? units').map (·.2.releaseDate) := by
    have hsnd := congrArg (Option.map Prod.snd) (release?_perm hperm)
    rwa [Option.map_map, Option.map_map] at hsnd
  have hraised := latestRaised?_perm hperm
  have hlatest := latest?_perm hperm
  have hafter (b b' : Option Breakdown)
      (hdate : b.map Breakdown.releaseDate = b'.map Breakdown.releaseDate) :
      (b.filter fun b => expiry.releaseDate < b.releaseDate).map Breakdown.releaseDate
        = (b'.filter fun b => expiry'.releaseDate < b.releaseDate).map Breakdown.releaseDate := by
    have hfilter := congrArg (Option.filter fun d => decide (expiry.releaseDate < d)) hdate
    rw [Option.filter_map, Option.filter_map] at hfilter
    rw [← hexpiry]
    exact hfilter
  -- entry by entry, each of which is tested on its date alone
  unfold otherEntries
  refine .cons ⟨rfl, hraised _ _⟩ (.cons ⟨rfl, ?_⟩ (.cons ⟨rfl, ?_⟩ (.cons ⟨rfl, ?_⟩
    (.cons ⟨rfl, hafter _ _ (hlatest _)⟩ (.cons ⟨rfl, hlatest _⟩ .nil)))))
  · rw [map_beforeRelease, map_beforeRelease, hrelease, hraised]
  · rw [map_beforeRelease, map_beforeRelease, hrelease, hraised]
  · rw [map_beforeRelease, map_beforeRelease, hrelease, hlatest]

/-! ## Recording dates -/

theorem dates_recordAll_congr {o o' : Outcome}
    {entries entries' : List (DateKind × Option Breakdown)}
    (h : List.Forall₂ (fun e e' => e.1 = e'.1
      ∧ e.2.map Breakdown.releaseDate = e'.2.map Breakdown.releaseDate) entries entries')
    (hdates : o.dates = o'.dates) :
    (o.recordAll entries).dates = (o'.recordAll entries').dates := by
  induction h generalizing o o' with
  | nil => exact hdates
  | @cons e e' _ _ hentry _ ih =>
    obtain ⟨kind, b⟩ := e
    obtain ⟨kind', b'⟩ := e'
    obtain ⟨rfl, hdate⟩ := hentry
    refine ih ?_
    -- either both entries are recorded, on the same date, or neither is
    cases b with
    | none =>
      cases b' with
      | none => exact hdates
      | some b' => cases hdate
    | some b =>
      cases b' with
      | none => cases hdate
      | some b' =>
        show o.dates.insert kind b.releaseDate = o'.dates.insert kind b'.releaseDate
        rw [hdates, Option.some.inj hdate]

theorem dates_recordExpiry_congr (o : Outcome) {expiry expiry' : Breakdown}
    {licence licence' : Option Breakdown} (hexpiry : expiry.releaseDate = expiry'.releaseDate)
    (hlicence : licence.map Breakdown.releaseDate = licence'.map Breakdown.releaseDate) :
    (o.recordExpiry expiry licence).dates = (o.recordExpiry expiry' licence').dates := by
  unfold recordExpiry
  cases licence with
  | none =>
    cases licence' with
    | none => simp only [record, hexpiry]
    | some l' => cases hlicence
  | some l =>
    cases licence' with
    | none => cases hlicence
    | some l' =>
      have hdate : l.releaseDate = l'.releaseDate := Option.some.inj hlicence
      simp only [hdate, hexpiry]
      split <;> simp only [record, hdate, hexpiry]

theorem dates_recordRelease_congr {o o' : Outcome}
    {release release' : Option (DateKind × Breakdown)} (hdates : o.dates = o'.dates)
    (hrelease : release.map (fun r => (r.1, r.2.releaseDate))
      = release'.map (fun r => (r.1, r.2.releaseDate))) :
    (o.recordRelease release).dates = (o'.recordRelease release').dates := by
  cases release with
  | none =>
    cases release' with
    | none => exact hdates
    | some r' => cases hrelease
  | some r =>
    cases release' with
    | none => cases hrelease
    | some r' =>
      obtain ⟨hkind, hdate⟩ := Prod.ext_iff.mp (Option.some.inj hrelease)
      show o.dates.insert r.1 r.2.releaseDate = o'.dates.insert r'.1 r'.2.releaseDate
      rw [hdates, show r.1 = r'.1 from hkind, show r.2.releaseDate = r'.2.releaseDate from hdate]

/-- **The dates of a booking do not depend on the order of its units.** -/
theorem dates_ofBreakdowns_perm (hperm : units.Perm units') {expiry expiry' : Breakdown}
    (hexpiry : expiry.releaseDate = expiry'.releaseDate) :
    (ofBreakdowns expiry units).dates = (ofBreakdowns expiry' units').dates := by
  rw [ofBreakdowns_eq, ofBreakdowns_eq]
  apply dates_recordAll_congr (otherEntries_perm hperm hexpiry)
  apply dates_recordRelease_congr ?_ (release?_perm hperm)
  exact dates_recordExpiry_congr empty hexpiry (latest?_perm hperm _)

/-- **When there is an outcome, there is one in any order**, and nothing but breakdowns may be
different. -/
theorem ofUnits_perm {o : Outcome} (hperm : units.Perm units') (h : ofUnits units = .ok o) :
    ∃ o', ofUnits units' = .ok o' ∧ o.dates = o'.dates ∧ o.otherDates = o'.otherDates
      ∧ o.effectiveLength = o'.effectiveLength := by
  obtain ⟨earliest, expiry, esed, stop, hearliest, hexpiry, hesed, hstop, rfl⟩ := ofUnits_eq_ok.mp h
  rw [Date.min?_eq_of_perm (hperm.map _)] at hearliest
  rw [Date.max?_eq_of_perm (hperm.filterMap _)] at hesed
  -- which of the latest is found depends on the order, its date does not
  have hdate := latest?_perm hperm [.sled, .sed]
  rw [hexpiry, Option.map_some] at hdate
  obtain ⟨expiry', hexpiry', hsame⟩ := Option.map_eq_some_iff.mp hdate.symm
  refine ⟨_, ofUnits_eq_ok.mpr ⟨earliest, expiry', esed, stop, hearliest, hexpiry', hesed, hstop,
    rfl⟩, dates_ofBreakdowns_perm hperm hsame.symm, ?_, rfl⟩
  show (ofBreakdowns expiry units).otherDates.insert .esed esed
    = (ofBreakdowns expiry' units').otherDates.insert .esed esed
  rw [otherDates_ofBreakdowns, otherDates_ofBreakdowns]

end Outcome

end Custody
