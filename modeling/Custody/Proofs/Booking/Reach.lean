import Custody.Proofs.Booking.Failures
import Custody.Proofs.Booking.Resubmitted
import Custody.Proofs.Outcome.Reach

/-!
# Bookings within reach

A booking is well formed (`Booking.WellFormed`) if chains can be made of its sentences, all of them
passed in the years 1 to 9999, and all of their terms and all adjustments come to ten million days
at most. Every unit of it is then within reach, and so is every date that is made out on the way to
an answer: all that is left is that the booking is not covered.

* **`Adjustments.appliedTo_inReach`**: what is applied to a unit.
* **`Single.trackFor_failsBy`**, **`Sentence.assemble_failsBy`**: what may not be covered.
* **`Booking.WellFormed.inReach`**: the units of a well-formed booking are within reach.
* **`Booking.calculate_answered`**: a well-formed booking has an answer, or it is not covered.
-/

namespace Custody

open Custody.Calendar Custody.Answered Custody.Failure

variable {config : Config} {inputs : Inputs} {assumption : Assumption} {b : Booking}
  {fails : Failure → Prop}

/-! ## Adjustments -/

namespace Adjustments

variable {a : Adjustments} {sentencedAt : Date} {sequences : List (UInt32 × UInt32)}

/-- The days of all entries, whatever they are for. -/
def allDays (a : Adjustments) : Int :=
  totalOf (fun type => totalOf (·.days.toNat) (a.entries type)) Enumeration.all

theorem totalDays_nonneg (type : AdjustmentType) : 0 ≤ a.totalDays type sentencedAt sequences :=
  totalOf_nonneg fun _ _ => Int.natCast_nonneg _

theorem totalDays_le (type : AdjustmentType) : a.totalDays type sentencedAt sequences
    ≤ totalOf (·.days.toNat) (a.entries type) :=
  totalOf_le_of_sublist List.filter_sublist fun _ _ => Int.natCast_nonneg _

theorem totalWith_nonneg (effect : AdjustmentEffect) :
    0 ≤ a.totalWith effect sentencedAt sequences :=
  totalOf_nonneg fun type _ => totalDays_nonneg type

/-- The days of entries with different effects do not come to more than those of all. -/
theorem totalWith_add_le (a : Adjustments) (sentencedAt : Date)
    (sequences : List (UInt32 × UInt32)) {effect effect' : AdjustmentEffect}
    (hne : effect ≠ effect') :
    a.totalWith effect sentencedAt sequences + a.totalWith effect' sentencedAt sequences
      ≤ a.allDays := by
  have hparts : a.totalWith effect sentencedAt sequences
      + a.totalWith effect' sentencedAt sequences
        ≤ totalOf (a.totalDays · sentencedAt sequences) Enumeration.all :=
    totalOf_filter_add_le
      (fun _ _ htype => decide_eq_false fun h => hne ((of_decide_eq_true htype).symm.trans h))
      fun type _ => totalDays_nonneg type
  have hall : totalOf (a.totalDays · sentencedAt sequences) Enumeration.all ≤ a.allDays :=
    totalOf_mono fun type _ => totalDays_le type
  exact hparts.trans hall

/-- **What is applied to a unit is within reach.** -/
theorem appliedTo_inReach (h : a.allDays ≤ 10000000) {unit : Sentence}
    {applied : AppliedAdjustments} (happlied : a.appliedTo unit = .ok applied) :
    applied.InReach := by
  simp only [appliedTo, bind_eq_ok, pure_eq_ok] at happlied
  obtain ⟨sentencedAt, _, rfl⟩ := happlied
  have hnonneg (effect : AdjustmentEffect) :
      0 ≤ a.totalWith effect sentencedAt unit.sequences := totalWith_nonneg effect
  have hdeducted := hnonneg .deduction
  have hextended := hnonneg .sentenceExtension
  have hawarded := hnonneg .releaseExtension
  have hrestored := hnonneg .releaseRestoration
  have hcustody : a.totalWith .deduction sentencedAt unit.sequences
      + a.totalWith .sentenceExtension sentencedAt unit.sequences ≤ a.allDays :=
    a.totalWith_add_le sentencedAt unit.sequences (by decide)
  have hrelease : a.totalWith .sentenceExtension sentencedAt unit.sequences
      + a.totalWith .releaseExtension sentencedAt unit.sequences ≤ a.allDays :=
    a.totalWith_add_le sentencedAt unit.sequences (by decide)
  -- the totals are far from the ends of what 64 bits hold
  constructor
  · simp only [AppliedAdjustments.custodyDays]
    rw [wrap64_of_small (by omega) (by omega)]
    omega
  · simp only [AppliedAdjustments.releaseDays, AppliedAdjustments.custodyDays]
    rw [wrap64_of_small (n := _ - _) (by omega) (by omega), wrap64_of_small (by omega) (by omega)]
    omega

end Adjustments

/-! ## Classification -/

theorem Duration.atLeastYears_failsBy {d : Duration} {anchor : Date} {years : UInt32}
    (hanchor : anchor.InYears) (hd : d.mostDays ≤ 10000000) (hyears : years.toNat ≤ 1000) :
    FailsBy fails (d.atLeastYears anchor years) := by
  have hbounds := hanchor.day_bounds
  simp only [atLeastYears, failsBy_bind, failsBy_pure, implies_true, and_true]
  exact ⟨endDate_failsBy (by omega) (by omega), fun _ _ => endDate_years_failsBy hyears hbounds⟩

namespace Single

variable {s : Single}

theorem isSdsPlus_failsBy (hconfig : config.Moderate) (hs : s.sentencedAt.InYears)
    {t : StandardTerm} (ht : t.duration.mostDays ≤ 10000000) :
    FailsBy fails (s.isSdsPlus config inputs t) := by
  have hmarks (marks : OffenceMarks) : FailsBy fails (s.isSdsPlusByMarks config marks t) := by
    simp [isSdsPlusByMarks, Duration.atLeastYears_failsBy hs ht hconfig.sdsPlusYears,
      Duration.atLeastYears_failsBy hs ht hconfig.listCMinimumYears,
      Duration.atLeastYears_failsBy hs ht hconfig.listCMaximumYears]
  unfold isSdsPlus
  cases inputs.answerFor? s <;> simp [hmarks]

theorem isEarlyReleaseEligible_failsBy (hconfig : config.Moderate) (hs : s.sentencedAt.InYears)
    {t : StandardTerm} (ht : t.duration.mostDays ≤ 10000000) :
    FailsBy fails (s.isEarlyReleaseEligible config t) := by
  unfold isEarlyReleaseEligible
  cases t.exclusion <;> simp [Duration.atLeastYears_failsBy hs ht hconfig.violentYears]

/-- **Of a sentence within reach only an old offence is not covered.** -/
theorem trackFor_failsBy (hconfig : config.Moderate) (hs : s.sentencedAt.InYears)
    (hlength : s.mostDays ≤ 10000000) :
    FailsBy NotCovered (s.trackFor config inputs assumption) := by
  unfold mostDays at hlength
  unfold trackFor
  -- only lengths are compared, and none is beyond the range of dates
  cases hterm : s.term with
  | standard t =>
    have ht : t.duration.mostDays ≤ 10000000 := by rwa [hterm] at hlength
    simp [standardTrack, isSdsPlus_failsBy hconfig hs ht,
      isEarlyReleaseEligible_failsBy hconfig hs ht]
  | extended custodial licence =>
    have hlicence := licence.mostDays_nonneg
    have hcustodial : custodial.mostDays ≤ 10000000 := by
      rw [hterm, Term.mostDays] at hlength
      omega
    simp [extendedTrack, Duration.atLeastYears_failsBy hs hcustodial hconfig.edsYears]
  | botus duration => simp

end Single

namespace Sentence

variable {s : Sentence} {sentences units : List Sentence}

theorem InReach.mostDays_single_le (h : s.InReach) {t : Single} (ht : t ∈ s.singles) :
    t.mostDays ≤ 10000000 := by
  have hsub : [t].Sublist s.singles := List.singleton_sublist.mpr ht
  have hle := totalOf_le_of_sublist hsub fun t _ => t.mostDays_nonneg
  have hmost := h.mostDays_le
  simp only [totalOf_cons, totalOf_nil, Int.add_zero] at hle
  exact hle.trans hmost

/-- A sentence within reach can be put on its tracks, if it is covered. -/
theorem InReach.classify_failsBy (hconfig : config.Moderate) (h : s.InReach) :
    FailsBy NotCovered (s.classify config inputs assumption) := by
  refine Sentence.classify_failsBy (fun part hpart hnone => ?_)
    (fun t ht => Single.trackFor_failsBy hconfig (h.inYears t ht) (h.mostDays_single_le ht))
    fun hnil => absurd hnil h.components_ne_nil
  have hflat := h.flat part hpart
  cases part with
  | single t => cases hnone
  | chain => cases hflat

/-! ## Assembly -/

theorem checkCovered_failsBy (h : s.components ≠ []) : FailsBy NotCovered s.checkCovered := by
  cases s with
  | single t => exact failsBy_ok ()
  | chain parts track =>
    have hempty : parts.isEmpty = false := List.isEmpty_eq_false_iff.mpr h
    simp [checkCovered, hempty]

theorem components_ofPath_ne_nil {way : List Single} (h : way ≠ []) :
    (ofPath way).components ≠ [] := by
  intro hnil
  have hsingles := singles_ofPath way
  rw [singles, hnil] at hsingles
  exact h hsingles.symm

theorem flat_ofPath (way : List Single) :
    ∀ part ∈ (ofPath way).components, part.isChain = false := by
  have hmap : ∀ part ∈ way.map single, part.isChain = false := by
    intro part hpart
    obtain ⟨t, _, rfl⟩ := List.mem_map.mp hpart
    rfl
  match way with
  | [] => exact hmap
  | [t] => exact hmap
  | _ :: _ :: _ => exact hmap

/-- **Links that resolve without a cycle** lead to units, if those are covered. -/
theorem assemble_failsBy (hne : ∀ s ∈ sentences, s.components ≠ [])
    (hdistinct : Single.Distinct (singlesOf sentences))
    (hresolve : LinksResolve (singlesOf sentences))
    (hacyclic : Single.Acyclic (singlesOf sentences)) :
    FailsBy NotCovered (assemble sentences) := by
  have hchains : FailsBy NotCovered ((sentences.filter isChain).forM checkCovered) :=
    FailsBy.forM fun c hc => checkCovered_failsBy (hne c (List.mem_of_mem_filter hc))
  generalize hsingles : singlesOf sentences = singles at hdistinct hresolve hacyclic
  have hrepeated : Single.repeated? [] singles = none :=
    repeated?_eq_none_iff.mpr ⟨hdistinct, fun _ _ => List.not_mem_nil⟩
  have hknown : Single.unknownParent? singles = none := unknownParent?_eq_none_iff.mpr hresolve
  have hways : FailsBy NotCovered ((Single.paths singles).mapM coveredPath) := by
    refine FailsBy.mapM fun way hway => ?_
    obtain ⟨t, hto, _⟩ := (Single.mem_paths hdistinct).mp hway
    have hpos := List.ne_nil_of_length_pos hto.length_pos
    simp [coveredPath, checkCovered_failsBy (components_ofPath_ne_nil hpos)]
  -- without a cycle the ways pass every sentence
  have hpassed := (forall_mem_paths_iff hdistinct hresolve).mpr hacyclic
  have hnoWay : (singles.any fun s =>
      !(Single.paths singles).any (·.any (·.identifier = s.identifier))) = false := by
    simpa using hpassed
  simp only [assemble, hsingles, failsBy_bind, hchains, true_and]
  intro _ _
  simp [hrepeated, hknown, hways, hnoWay]

/-- There is a unit for every sentence. -/
theorem assemble_ne_nil (hne : sentences ≠ []) (h : assemble sentences = .ok units) :
    units ≠ [] := by
  obtain ⟨_, _, _, _, hpassed, rfl⟩ := assemble_eq_ok.mp h
  obtain ⟨s, hs⟩ := List.exists_mem_of_ne_nil sentences hne
  cases s with
  | chain parts track =>
    have hchain : chain parts track ∈ sentences.filter isChain := List.mem_filter.mpr ⟨hs, rfl⟩
    exact List.append_ne_nil_of_left_ne_nil (List.ne_nil_of_mem hchain) _
  | single t =>
    obtain ⟨way, hway, _⟩ := hpassed t (List.mem_filterMap.mpr ⟨_, hs, rfl⟩)
    exact List.append_ne_nil_of_right_ne_nil _ (List.ne_nil_of_mem (List.mem_map_of_mem hway))

end Sentence

namespace Booking

/-! ## Bookings that are well formed -/

/-- The single sentences of a booking, those of its chains among them. -/
def singles (b : Booking) : List Single := b.sentences.flatMap Sentence.singles

/-- A booking of which chains can be made, within years and days that can be reckoned with. -/
structure WellFormed (b : Booking) : Prop where
  sentences_ne_nil : b.sentences ≠ []
  components_ne_nil : ∀ s ∈ b.sentences, s.components ≠ []
  flat : ∀ s ∈ b.sentences, ∀ part ∈ s.components, part.isChain = false
  distinct : Single.Distinct (Sentence.singlesOf b.sentences)
  resolve : Sentence.LinksResolve (Sentence.singlesOf b.sentences)
  acyclic : Single.Acyclic (Sentence.singlesOf b.sentences)
  inYears : ∀ t ∈ b.singles, t.sentencedAt.InYears
  returned : ∀ d, b.returnToCustody = some d → d.InYears
  /-- Of all terms, custody and licence together. -/
  mostDays_le : totalOf Single.mostDays b.singles ≤ 10000000
  allDays_le : b.adjustments.allDays ≤ 10000000

theorem singlesOf_sublist (sentences : List Sentence) :
    (Sentence.singlesOf sentences).Sublist (sentences.flatMap Sentence.singles) := by
  induction sentences with
  | nil => exact List.Sublist.slnil
  | cons s rest ih =>
    rw [List.flatMap_cons]
    cases s with
    | single t => exact ih.cons_cons t
    | chain parts track => exact ih.trans (List.sublist_append_right _ _)

namespace WellFormed

variable {units : List Sentence} {unit : Sentence}

/-- A unit of some of the sentences of a booking is within reach. -/
theorem inReach_of_subperm (h : b.WellFormed) (hne : unit.components ≠ [])
    (hflat : ∀ part ∈ unit.components, part.isChain = false)
    (hsub : unit.singles.Subperm b.singles) : unit.InReach where
  components_ne_nil := hne
  flat := hflat
  inYears t ht := h.inYears t (hsub.subset ht)
  mostDays_le := (totalOf_le_of_subperm hsub fun t _ => t.mostDays_nonneg).trans h.mostDays_le

/-- **The units of a well-formed booking are within reach.** A recorded chain is one of its
sentences, and a way passes none of them twice. -/
theorem inReach (h : b.WellFormed) (hunits : Sentence.assemble b.sentences = .ok units)
    (hunit : unit ∈ units) : unit.InReach := by
  obtain ⟨_, _, _, _, _, rfl⟩ := Sentence.assemble_eq_ok.mp hunits
  rcases List.mem_append.mp hunit with hunit | hunit
  · have hmem := List.mem_of_mem_filter hunit
    have hsub : unit.singles.Sublist b.singles :=
      List.sublist_flatten_of_mem (List.mem_map_of_mem hmem)
    exact h.inReach_of_subperm (h.components_ne_nil unit hmem) (h.flat unit hmem) hsub.subperm
  · obtain ⟨way, hway, rfl⟩ := List.mem_map.mp hunit
    obtain ⟨t, hto, _⟩ := (Single.mem_paths h.distinct).mp hway
    -- a way passes no sentence twice, so its days are among those of the booking
    have hsub : way ⊆ Sentence.singlesOf b.sentences := by
      intro s hs
      obtain ⟨_, hpart, _⟩ := hto.exists_of_mem hs
      exact hpart.mem_singles
    have hsubperm := (List.subperm_of_subset (hto.nodup h.distinct) hsub).trans
      (singlesOf_sublist b.sentences).subperm
    refine h.inReach_of_subperm ?_ (Sentence.flat_ofPath way) ?_
    · exact Sentence.components_ofPath_ne_nil (List.ne_nil_of_length_pos hto.length_pos)
    · rw [Sentence.singles_ofPath]
      exact hsubperm

end WellFormed

/-! ## The calculation of a unit -/

/-- A unit within reach has an entry, if it is covered. -/
theorem entryOf_failsBy (hconfig : config.Moderate) {unit : Sentence} (hunit : unit.InReach) :
    FailsBy NotCovered (b.entryOf config inputs assumption unit) := by
  rw [entryOf, failsBy_bind]
  refine ⟨hunit.classify_failsBy hconfig, fun classified hclassified => ?_⟩
  -- classification leaves the unit within reach, so it has a date
  have hreach := hunit.of_untracked_eq
    (Sentence.classify_classifiedAs hclassified).untracked_eq.symm
  obtain ⟨d, hdate, _⟩ := hreach.exists_sentencedAt
  unfold TimelineEntry.ofUnit
  cases b.returnToCustody <;> simp [hdate, orFail]

section Entry

variable (hconfig : config.Moderate) (h : b.WellFormed) {unit : Sentence} (hunit : unit.InReach)
  {entry : TimelineEntry} (hentry : b.entryOf config inputs assumption unit = .ok entry)

include hunit hentry

theorem inReach_of_entryOf : entry.unit.InReach :=
  hunit.of_untracked_eq (entryOf_isOf hentry).classified.untracked_eq.symm

include hconfig h

/-- **A unit within reach is calculated**, if it is covered and there is a fraction for early
removal where that is asked for. -/
theorem calculateUnit_notCovered (hfraction : inputs.calculateErsed = true →
      ∀ d, unit.sentencedAt? = some d → config.ersed.fractionOn? d ≠ none) :
    FailsBy NotCovered (b.calculateUnit config inputs entry) := by
  have hreach := inReach_of_entryOf hunit hentry
  have hof := entryOf_isOf hentry
  have htracks : ∀ t ∈ entry.unit.singles, t.track ≠ none := by
    intro t ht
    obtain ⟨_, _, _, _, rfl⟩ := hof.classified.exists_of_mem ht
    exact Option.some_ne_none _
  obtain ⟨track, htrack, _⟩ := hof.classified.weightiest
  have hreturned : ∀ d, entry.recallAnchor = some d → d.InYears := by
    intro d hd
    rw [recallAnchor_entryOf hentry] at hd
    split at hd
    · exact h.returned d hd
    · cases hd
  rw [calculateUnit, failsBy_bind]
  refine ⟨by simp [Adjustments.appliedTo, hof.sentencedAt], fun adjustments happlied => ?_⟩
  have hadjustments := Adjustments.appliedTo_inReach h.allDays_le happlied
  rw [failsBy_bind]
  refine ⟨Sentence.calculate_failsBy hconfig hreach htracks
    (htrack ▸ Option.some_ne_none track) hadjustments hreturned, fun c hc => ?_⟩
  have hcounts := Sentence.inReach_of_calculate hconfig hreach hadjustments hc
  have hdate : unit.sentencedAt? = some c.sentencedAt := by
    rw [← Sentence.sentencedAt?_untracked, ← hof.classified.untracked_eq,
      Sentence.sentencedAt?_untracked, Sentence.sentencedAt_of_calculate hc]
  -- the schemes look at counts and the date of sentencing, and leave both as they are
  refine recordSchemes_failsBy fun e he c' hundated => ?_
  have hcounts' := hcounts.of_undated_eq hundated
  refine ⟨e.applies_failsBy hconfig hcounts' b.offender entry.unit,
    e.date_failsBy_of_fraction hconfig hcounts' fun hremoval => ?_⟩
  have hsame : c'.sentencedAt = c.sentencedAt := congrArg (·.sentencedAt) hundated
  rw [hsame]
  exact hfraction (removal_mem_schemes.mp (hremoval ▸ he)) c.sentencedAt hdate

/-- The calculation of a unit within reach has an expiry, within reach without adjustments. -/
theorem expires_of_calculateUnit {c : UnitCalculation}
    (hc : b.calculateUnit config inputs entry = .ok c) :
    c.dateAmong? [.sled, .sed] ≠ none ∧ c.ExpiresInReach := by
  obtain ⟨_, _, _, _, _, _, _, hdated, _⟩ := calculateUnit_dated hc
  obtain ⟨x, _, hexpiry⟩ := hdated.expiryDate_eq
  refine ⟨hexpiry ▸ Option.some_ne_none x, ?_⟩
  obtain ⟨adjustments, start, happlied, hstart, _, _, hschemed⟩ := calculateUnit_eq_ok hc
  have hadjustments := Adjustments.appliedTo_inReach h.allDays_le happlied
  have hreach := inReach_of_entryOf hunit hentry
  have hcounts := Sentence.inReach_of_calculate hconfig hreach hadjustments hstart
  exact (calculateUnit_allReckoned hc).expiresInReach (hcounts.of_undated_eq hschemed.undated)

end Entry

/-! ## Both passes -/

/-- Where early removal is asked for there is a fraction of it for every unit. -/
def HasFractions (terms : RemovalTerms) (inputs : Inputs) (b : Booking) : Prop :=
  inputs.calculateErsed = true → ∀ units, Sentence.assemble b.sentences = .ok units →
    ∀ unit ∈ units, ∀ d, unit.sentencedAt? = some d → terms.fractionOn? d ≠ none

section Passes

variable (hconfig : config.Moderate) (h : b.WellFormed)

include h

theorem inReach_of_mem_units {p : Pass} (hp : b.pass config inputs assumption = .ok p) :
    ∀ unit ∈ p.units, unit.InReach := by
  obtain ⟨_, units, entries, hunits, hentries, hsorted, _⟩ := pass_eq_ok.mp hp
  intro s hs
  rw [hsorted] at hs
  obtain ⟨entry, hentry, rfl⟩ := List.mem_map.mp hs
  obtain ⟨unit, hunit, hof⟩ :=
    exists_of_mem_right (mapM_eq_ok.mp hentries) (List.mem_mergeSort.mp hentry)
  exact inReach_of_entryOf (h.inReach hunits hunit) hof

include hconfig

/-- **A pass over a well-formed booking has an outcome**, if it is covered. -/
theorem pass_notCovered (hfractions : b.HasFractions config.ersed inputs) :
    FailsBy NotCovered (b.pass config inputs assumption) := by
  refine pass_failsBy (fun _ => notCovered_unsupported _)
    (Sentence.assemble_failsBy h.components_ne_nil h.distinct h.resolve h.acyclic) ?_ ?_
  · -- each unit is within reach, so it fails at most as not covered
    intro units hunits unit hunit
    have hreach := h.inReach hunits hunit
    rw [calculationOf, failsBy_bind]
    exact ⟨entryOf_failsBy hconfig hreach, fun entry hentry => calculateUnit_notCovered hconfig h
      hreach hentry fun hersed => hfractions hersed units hunits unit hunit⟩
  · -- and there are calculations that all expire, so the outcome is found
    intro units calculations hunits hlength hcalculations
    have hne : calculations ≠ [] := by
      have hpos := List.length_pos_iff.mpr (Sentence.assemble_ne_nil h.sentences_ne_nil hunits)
      exact List.ne_nil_of_length_pos (hlength ▸ hpos)
    have hexpires : ∀ c ∈ calculations,
        c.InStep ∧ c.dateAmong? [.sled, .sed] ≠ none ∧ c.ExpiresInReach := by
      intro c hc
      obtain ⟨unit, hunit, hcalculated⟩ := hcalculations c hc
      obtain ⟨entry, hentry, hcalculated⟩ := bind_eq_ok.mp hcalculated
      exact ⟨inStep_of_calculateUnit hcalculated,
        expires_of_calculateUnit hconfig h (h.inReach hunits hunit) hentry hcalculated⟩
    exact Outcome.ofUnits_failsBy hne (fun c hc => (hexpires c hc).1)
      (fun c hc => (hexpires c hc).2.1) fun c hc => (hexpires c hc).2.2

/-- **A well-formed booking has an answer**, if it is covered. -/
theorem calculate_notCovered (hfractions : b.HasFractions config.ersed inputs) :
    FailsBy NotCovered (b.calculate config inputs) :=
  calculate_failsBy (fun _ => pass_notCovered hconfig h hfractions) fun standard _ _ hearly =>
    Outcome.allocateTranche_failsBy hconfig (inReach_of_mem_units h hearly) standard.outcome

end Passes

/-- **Under the settings in force a well-formed booking has an answer, or it is not covered.** Where
early removal is asked for, its units have to be passed since the act that brought it in. -/
theorem calculate_answered (h : b.WellFormed)
    (hremoval : inputs.calculateErsed = true → ∀ units, Sentence.assemble b.sentences = .ok units →
      ∀ unit ∈ units, ∀ d, unit.sentencedAt? = some d → EnglandAndWales.on 2005 4 4 ≤ d) :
    (∃ o, b.calculate EnglandAndWales.config inputs = .ok o)
      ∨ ∃ cause, b.calculate EnglandAndWales.config inputs = .error (.unsupported cause) := by
  have hfractions : b.HasFractions EnglandAndWales.config.ersed inputs := by
    intro hersed units hunits unit hunit d hd hnone
    have hlater := RemovalTerms.fractionOn?_eq_none_iff.mp hnone _ List.mem_cons_self
    have hsince := hremoval hersed units hunits unit hunit d hd
    rw [Date.lt_iff] at hlater
    rw [Date.le_iff] at hsince
    exact absurd hsince (not_le.mpr hlater)
  have hanswer := calculate_notCovered EnglandAndWales.config_moderate h hfractions
  refine hanswer.ok_or.imp_right ?_
  rintro ⟨_, he, cause, rfl⟩
  exact ⟨cause, he⟩

theorem forked_wellFormed : forked.WellFormed := by
  have hdistinct : Single.Distinct (Sentence.singlesOf Sentence.fork) := by
    unfold Single.Distinct
    decide +kernel
  have hresolve : Sentence.LinksResolve (Sentence.singlesOf Sentence.fork) :=
    Sentence.unknownParent?_eq_none_iff.mp (by decide +kernel)
  refine ⟨List.cons_ne_nil _ _, ?_, ?_, hdistinct, hresolve, ?_, by decide +kernel,
    fun d hd => ?_, by decide +kernel, by decide +kernel⟩
  · simp [forked, Sentence.fork, Sentence.components]
  · simp [forked, Sentence.fork, Sentence.components, Sentence.isChain]
  · refine (Sentence.forall_mem_paths_iff hdistinct hresolve).mp ?_
    rw [Sentence.paths_fork]
    decide +kernel
  · cases hd

/-- Links that fork beside a recorded chain, with early removal asked for. -/
theorem calculate_answered_forked : forked.WellFormed
    ∧ (∀ units, Sentence.assemble forked.sentences = .ok units →
      ∀ unit ∈ units, ∀ d, unit.sentencedAt? = some d → EnglandAndWales.on 2005 4 4 ≤ d)
    ∧ ∃ o, forked.calculate EnglandAndWales.config { calculateErsed := true } = .ok o := by
  have hremoval : ∀ units, Sentence.assemble forked.sentences = .ok units →
      ∀ unit ∈ units, ∀ d, unit.sentencedAt? = some d → EnglandAndWales.on 2005 4 4 ≤ d := by
    intro units hunits
    rw [assemble_forked] at hunits
    cases hunits
    decide +kernel
  refine ⟨forked_wellFormed, hremoval, ?_⟩
  have hcases : (∃ o, forked.calculate EnglandAndWales.config { calculateErsed := true } = .ok o)
      ∨ ∃ cause, forked.calculate EnglandAndWales.config { calculateErsed := true }
        = .error (.unsupported cause) :=
    calculate_answered forked_wellFormed fun _ => hremoval
  rcases hcases with hanswer | ⟨cause, herror⟩
  · exact hanswer
  · have heval : (fun o : Outcome => o.date? .ard)
          <$> forked.calculate EnglandAndWales.config { calculateErsed := true }
        = .ok (some (EnglandAndWales.on 2020 11 21)) := by
      simp only [calculate, pass, timeline_eq_insertionSort, assemble_forked]
      decide +kernel
    rw [herror] at heval
    cases heval

end Booking

end Custody
