import Custody.Proofs.Outcome.Raised

/-!
# A further unit

A unit that runs beside those of a booking never brings a date of the booking forward. Each date is
the latest of some of the dates of the units, so it cannot get earlier as there are more of them. A
date that is put back goes to the release of the units without it, and there are no fewer of those
either. Whether a date is recorded at all may change, and so may the kind of release, but not which
dates it is the latest of.

* **`latestDate?`**: the date that a booking has of a kind, where it has one.
* **`latestDate?_mono`**: more units, no earlier a date.
* **`further_unit_no_earlier`**: the dates of two bookings that differ by one unit.
-/

namespace Custody

open Custody.Calendar

/-- A date put back to a release is not before either. -/
theorem Outcome.le_notBefore (release : Option Date) (d : Date) :
    d.day ≤ (notBefore release d).day
      ∧ ∀ r, release = some r → r.day ≤ (notBefore release d).day := by
  unfold notBefore
  cases release with
  | none => exact ⟨le_rfl, fun r hr => by cases hr⟩
  | some release =>
    simp only [Date.lt_iff, Option.some.injEq, forall_eq']
    split <;> omega

/-- What the first has the second has too, and no earlier. -/
def NoEarlier (d d' : Option Date) : Prop :=
  ∀ e, d = some e → ∃ e', d' = some e' ∧ e.day ≤ e'.day

namespace NoEarlier

variable {d d' : Option Date}

theorem day_le (h : NoEarlier d d') {e e' : Date} (he : d = some e) (he' : d' = some e') :
    e.day ≤ e'.day := by
  obtain ⟨x, hx, hle⟩ := h e he
  rw [he'] at hx
  cases hx
  exact hle

/-- The latest of more dates is no earlier. -/
theorem max? {ds ds' : List Date} (hsub : ds ⊆ ds') : NoEarlier ds.max? ds'.max? := by
  intro e he
  rw [List.max?_eq_some_iff] at he
  have hmem : e ∈ ds' := hsub he.1
  obtain ⟨e', he'⟩ := Option.ne_none_iff_exists'.mp
    (mt List.max?_eq_none_iff.mp (List.ne_nil_of_mem hmem))
  exact ⟨e', he', (List.max?_eq_some_iff.mp he').2 e hmem⟩

/-- A date put back to a release, both no earlier than before. -/
theorem notBefore {release release' : Option Date} (hdate : NoEarlier d d')
    (hrelease : NoEarlier release release') :
    NoEarlier (d.map (Outcome.notBefore release)) (d'.map (Outcome.notBefore release')) := by
  intro e he
  obtain ⟨x, hx, rfl⟩ := Option.map_eq_some_iff.mp he
  obtain ⟨x', rfl, hle⟩ := hdate x hx
  refine ⟨Outcome.notBefore release' x', rfl, ?_⟩
  have hgreater := Outcome.le_notBefore release' x'
  -- a date is put back to the release, which does not come earlier either
  cases hr : release with
  | none => exact hle.trans hgreater.1
  | some r =>
    obtain ⟨r', hr', hler⟩ := hrelease r hr
    have hback := hgreater.2 r' hr'
    rw [Outcome.notBefore]
    split <;> omega

end NoEarlier

namespace Outcome

variable {units units' : List UnitCalculation}

/-- Where there is a date of release, there is release. -/
theorem exists_release? {kind : DateKind} (hkind : kind.IsRelease) {b : Breakdown}
    (h : latest? [kind] units = some b) : ∃ r, release? units = some r := by
  unfold release?
  rcases hkind with rfl | rfl
  · rw [h]
    cases latest? [.ard] units with
    | none => exact ⟨_, rfl⟩
    | some ard => exact ⟨if _ then _ else _, (apply_ite some _ _ _).symm⟩
  · rw [h]
    cases latest? [.crd] units with
    | none => exact ⟨_, rfl⟩
    | some crd => exact ⟨if _ then _ else _, (apply_ite some _ _ _).symm⟩

section More

variable (hsub : units ⊆ units')

include hsub

theorem latest?_mono (kinds : List DateKind) :
    NoEarlier ((latest? kinds units).map Breakdown.releaseDate)
      ((latest? kinds units').map Breakdown.releaseDate) := by
  unfold latest?
  rw [map_latestOf?, map_latestOf?]
  exact .max? (List.map_subset _ (List.filterMap_subset _ hsub))

theorem concurrentRelease?_mono (kind : DateKind) :
    NoEarlier (concurrentRelease? kind units) (concurrentRelease? kind units') :=
  .max? (List.filterMap_subset _ fun _ hmem =>
    List.mem_filter.mpr ⟨hsub (List.mem_filter.mp hmem).1, (List.mem_filter.mp hmem).2⟩)

/-- Release is the latest of both kinds, so it is no earlier than the one that was kept before. -/
theorem release?_mono : NoEarlier ((release? units).map (·.2.releaseDate))
    ((release? units').map (·.2.releaseDate)) := by
  intro e he
  obtain ⟨⟨kind, b⟩, hr, rfl⟩ := Option.map_eq_some_iff.mp he
  obtain ⟨hkind, hlatest, _⟩ := release?_eq_some hr
  obtain ⟨e', he', hle⟩ := latest?_mono hsub [kind] b.releaseDate (by rw [hlatest, Option.map_some])
  obtain ⟨b', hb', rfl⟩ := Option.map_eq_some_iff.mp he'
  obtain ⟨r', hr'⟩ := exists_release? hkind hb'
  have hkept := (release?_eq_some hr').2.2 kind hkind b' hb'
  exact ⟨r'.2.releaseDate, by rw [hr', Option.map_some], hle.trans hkept⟩

theorem latestRaised?_mono (kind : DateKind) (rule : Rule) :
    NoEarlier ((latestRaised? kind rule units).map Breakdown.releaseDate)
      ((latestRaised? kind rule units').map Breakdown.releaseDate) := by
  rw [map_latestRaised?, map_latestRaised?]
  exact .notBefore (latest?_mono hsub _) (concurrentRelease?_mono hsub kind)

end More

/-- The latest date of a kind, which is that of a booking where it has one. -/
def latestDate? (units : List UnitCalculation) : DateKind → Option Date
  | .sled | .sed => (latest? [.sled, .sed] units).map Breakdown.releaseDate
  | .led => (latest? [.sled, .led] units).map Breakdown.releaseDate
  | .ped => (latestRaised? .ped .pedConcurrentRelease units).map Breakdown.releaseDate
  | .hdced => (latestRaised? .hdced .hdcedConcurrentRelease units).map Breakdown.releaseDate
  | .hdced4plus =>
    (latestRaised? .hdced4plus .hdced4plusConcurrentRelease units).map Breakdown.releaseDate
  | kind => (latest? [kind] units).map Breakdown.releaseDate

theorem latestDate?_mono (hsub : units ⊆ units') (kind : DateKind) :
    NoEarlier (latestDate? units kind) (latestDate? units' kind) := by
  cases kind <;> first | exact latest?_mono hsub _ | exact latestRaised?_mono hsub _ _

variable {o o' : Outcome}

/-- Expiry is recorded on its date, and a licence that ends apart on that of the licence. -/
theorem date?_recordExpiry_eq_some {expiry : Breakdown} {licence : Option Breakdown}
    {kind : DateKind} {d : Date} (hd : (empty.recordExpiry expiry licence).date? kind = some d) :
    kind.IsExpiry ∧ expiry.releaseDate = d
      ∨ kind = .led ∧ licence.map Breakdown.releaseDate = some d := by
  -- one date for all that expires, or the licence recorded beside the sentence
  rcases recordExpiry_cases empty expiry licence
    with hrecord | ⟨_, hrecord⟩ | ⟨l, rfl, _, hrecord⟩
  · rw [hrecord, date?_record, date?_empty] at hd
    split at hd
    · next heq => exact .inl ⟨.inl heq, Option.some.inj hd⟩
    · cases hd
  · rw [hrecord, date?_record, date?_empty] at hd
    split at hd
    · next heq => exact .inl ⟨.inr heq, Option.some.inj hd⟩
    · cases hd
  · rw [hrecord, date?_record, date?_record, date?_empty] at hd
    split at hd
    · next heq => exact .inr ⟨heq, hd⟩
    · split at hd
      · next heq => exact .inl ⟨.inr heq, Option.some.inj hd⟩
      · cases hd

/-- **The date that a booking has of a kind is the latest of it.** -/
theorem latestDate?_of_date? (h : ofUnits units = .ok o) {kind : DateKind} {d : Date}
    (hd : o.date? kind = some d) : latestDate? units kind = some d := by
  obtain ⟨expiry, hexpiry, _, hdate⟩ := date?_ofUnits h
  rw [hdate] at hd
  have hrelease (hkind : kind.IsRelease) :
      (latest? [kind] units).map Breakdown.releaseDate = some d := by
    rw [date?_ofBreakdowns_release _ _ hkind, Option.bind_eq_some_iff] at hd
    obtain ⟨r, hr, hd⟩ := hd
    split at hd
    · next heq =>
      cases hd
      rw [heq, (release?_eq_some hr).2.1, Option.map_some]
    · cases hd
  -- what comes after release is recorded as it is, where it is recorded
  have hother {b source : Option Breakdown} (hentry : (kind, b) ∈ otherEntries expiry units)
      (hsource : ∀ kept, b = some kept → source = some kept) :
      source.map Breakdown.releaseDate = some d := by
    rw [date?_ofBreakdowns_of_mem hentry, Option.map_eq_some_iff] at hd
    obtain ⟨kept, hkept, rfl⟩ := hd
    rw [hsource kept hkept, Option.map_some]
  have hcurfew (variant : Curfew) (hkind : kind = variant.kind) :
      (latestRaised? kind variant.concurrentRelease units).map Breakdown.releaseDate = some d := by
    subst hkind
    refine hother (b := beforeRelease ((release? units).map (·.2.releaseDate)) _) ?_
      fun kept hkept => (beforeRelease_eq_some hkept).1
    cases variant <;> simp [otherEntries]
  have hexpires (hmem : kind ∈ [DateKind.sled, .sed, .led]) :
      kind.IsExpiry ∧ expiry.releaseDate = d
        ∨ kind = .led ∧ (latest? [.sled, .led] units).map Breakdown.releaseDate = some d :=
    date?_recordExpiry_eq_some ((date?_ofBreakdowns_expiry expiry units hmem).symm.trans hd)
  cases kind with
  | sled | sed =>
    rcases hexpires (by decide) with ⟨_, rfl⟩ | ⟨hled, _⟩
    · rw [latestDate?, hexpiry, Option.map_some]
    · cases hled
  | led =>
    rcases hexpires (by decide) with ⟨hnot, _⟩ | ⟨_, hlicence⟩
    · rcases hnot with hnot | hnot <;> cases hnot
    · exact hlicence
  | crd => exact hrelease (.inl rfl)
  | ard => exact hrelease (.inr rfl)
  | ped => exact hother (.head _) fun _ => id
  | hdced => exact hcurfew .hdced rfl
  | hdced4plus => exact hcurfew .hdced4plus rfl
  | ersed =>
    exact hother (.tail _ (.tail _ (.tail _ (.head _))))
      fun _ hkept => (beforeRelease_eq_some hkept).1
  | tused =>
    exact hother (.tail _ (.tail _ (.tail _ (.tail _ (.head _)))))
      fun _ hkept => (Option.filter_eq_some_iff.mp hkept).1
  | prrd => exact hother (.tail _ (.tail _ (.tail _ (.tail _ (.tail _ (.head _)))))) fun _ => id
  | esed =>
    -- the end of the sentence before adjustments is kept for comparison only
    rw [ofBreakdowns_eq, date?_recordAll_of_notMem (by rw [map_fst_otherEntries]; decide),
      date?_recordRelease_of_not (by rintro (hnot | hnot) <;> cases hnot),
      date?_recordExpiry _ _ _ (by decide)] at hd
    cases hd

/-- The end of a booking before adjustments is the latest of those of its units. -/
theorem exists_esed (h : ofUnits units = .ok o) : ∃ e, o.otherDates.get? .esed = some e
    ∧ (units.filterMap UnitCalculation.unadjustedExpiryDate?).max? = some e := by
  obtain ⟨_, _, esed, _, _, _, hesed, _, rfl⟩ := ofUnits_eq_ok.mp h
  exact ⟨esed, rfl, hesed⟩

/-- **A further unit brings no date of a booking forward**, and release does not go. -/
theorem further_unit_no_earlier {before after : List UnitCalculation} {c : UnitCalculation}
    (h : ofUnits (before ++ after) = .ok o) (h' : ofUnits (before ++ c :: after) = .ok o') :
    (∀ kind d d', o.date? kind = some d → o'.date? kind = some d' → d ≤ d')
      ∧ (∃ e e', o.otherDates.get? .esed = some e ∧ o'.otherDates.get? .esed = some e' ∧ e ≤ e')
      ∧ ∀ r, o.releaseDate? = some r → ∃ r', o'.releaseDate? = some r' ∧ r ≤ r' := by
  have hsub : before ++ after ⊆ before ++ c :: after :=
    ((List.sublist_cons_self c after).append_left before).subset
  refine ⟨fun kind d d' hd hd' => ?_, ?_, fun r hr => ?_⟩
  · -- each date is a greatest one, over more units
    exact Date.le_iff.mpr ((latestDate?_mono hsub kind).day_le (latestDate?_of_date? h hd)
      (latestDate?_of_date? h' hd'))
  · obtain ⟨e, he, hesed⟩ := exists_esed h
    obtain ⟨e', he', hesed'⟩ := exists_esed h'
    exact ⟨e, e', he, he',
      Date.le_iff.mpr ((NoEarlier.max? (List.filterMap_subset _ hsub)).day_le hesed hesed')⟩
  · rw [releaseDate?_ofUnits h] at hr
    rw [releaseDate?_ofUnits h']
    obtain ⟨r', hr', hle⟩ := release?_mono hsub r hr
    exact ⟨r', hr', Date.le_iff.mpr hle⟩

/-- A unit without curfew puts back that of the unit that it runs beside. -/
theorem further_unit_no_earlier_withoutCurfew :
    ∃ o o', ofUnits ([] ++ [withCurfew]) = .ok o
      ∧ ofUnits ([] ++ withoutCurfew :: [withCurfew]) = .ok o'
      ∧ o.date? .hdced = some (EnglandAndWales.on 2020 3 1)
      ∧ o'.date? .hdced = some (EnglandAndWales.on 2020 5 1)
      ∧ ∀ kind d d', o.date? kind = some d → o'.date? kind = some d' → d ≤ d' := by
  have heval : (·.date? .hdced) <$> ofUnits ([] ++ [withCurfew])
      = .ok (some (EnglandAndWales.on 2020 3 1)) := by
    decide +kernel
  have heval' : (·.date? .hdced) <$> ofUnits ([] ++ withoutCurfew :: [withCurfew])
      = .ok (some (EnglandAndWales.on 2020 5 1)) := by
    decide +kernel
  obtain ⟨o, ho, hdate⟩ := Answered.map_eq_ok.mp heval
  obtain ⟨o', ho', hdate'⟩ := Answered.map_eq_ok.mp heval'
  exact ⟨o, o', ho, ho', hdate, hdate', (further_unit_no_earlier ho ho').1⟩

end Outcome

end Custody
