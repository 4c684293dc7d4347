import Custody.Config.EnglandAndWales
import Custody.Proofs.Answered
import Custody.Proofs.Config.InForce
import Custody.Unit.Curfew

/-!
# Settings that have been checked

A configuration is checked before it is given out, so whoever has one that was loaded may rely on
what is checked: there is a multiplier for every track, what is meant for a fraction is one, and no
variant of home detention curfew is for nobody.

* **`Config.check_eq_ok_iff`**: what is checked.
* **`Config.usable_of_load`**: what is loaded has been checked.
* **`EnglandAndWales.load_text`**: the files of England and Wales make up its configuration.
-/

namespace Custody

open Custody.Calendar

/-! ## What is checked -/

/-- A fraction that may be served of a sentence: above zero and at most one. -/
structure Decimal.IsFraction (d : Decimal) : Prop where
  pos : ¬ d ≤ 0
  le_one : d ≤ 1

/-- Terms of home detention curfew that are for some track and some length of sentence. -/
structure CurfewTerms.Usable (terms : CurfewTerms) : Prop where
  tracks_ne_nil : terms.tracks ≠ []
  custodial_nonneg : 0 ≤ terms.minimumCustodialDays
  eligibility_nonneg : 0 ≤ terms.minimumEligibilityDays
  years_lt : ∀ minimum maximum, terms.minimumYears = some minimum →
    terms.maximumYears = some maximum → minimum < maximum

/-- Settings that calculations can be made under. -/
structure Config.Usable (c : Config) : Prop where
  multiplier : ∀ track, ∃ m, c.releasePoints.multipliers.get? track = some m ∧ m.IsFraction
  parole : ∀ track m, c.releasePoints.paroleMultipliers.get? track = some m → m.IsFraction
  curfew : ∀ variant : Curfew, (variant.terms c).Usable
  fractions_ne_nil : c.ersed.fractions ≠ []
  fraction : ∀ entry ∈ c.ersed.fractions, entry.fraction.IsFraction
  tranches_lt : c.earlyRelease.trancheOneCommencement < c.earlyRelease.trancheTwoCommencement

namespace Config

theorem demand_eq_ok_iff {condition : Bool} {fault : ConfigFault} :
    demand condition fault = .ok () ↔ condition = true := by
  cases condition <;> simp [demand]

theorem checkFraction_eq_ok_iff {setting : String} {value : Decimal} :
    checkFraction setting value = .ok () ↔ value.IsFraction := by
  rw [checkFraction, demand_eq_ok_iff, Bool.and_eq_true, Bool.not_eq_true', decide_eq_false_iff_not,
    decide_eq_true_eq]
  exact ⟨fun h => ⟨h.1, h.2⟩, fun h => ⟨h.pos, h.le_one⟩⟩

theorem checkMultiplier_eq_ok_iff {points : ReleasePoints} {track : Track} :
    checkMultiplier points track = .ok ()
      ↔ ∃ m, points.multipliers.get? track = some m ∧ m.IsFraction := by
  simp only [checkMultiplier, Answered.bind_eq_ok, Answered.orFail_eq_ok, checkFraction_eq_ok_iff]

/-- One check after another passes if both do. -/
theorem check_then_eq_ok_iff {first : Answered Unit} {next : Answered Unit} :
    (first >>= fun _ => next) = .ok () ↔ first = .ok () ∧ next = .ok () := by
  rw [Answered.bind_eq_ok]
  constructor
  · rintro ⟨⟨⟩, hfirst, hnext⟩
    exact ⟨hfirst, hnext⟩
  · rintro ⟨hfirst, hnext⟩
    exact ⟨(), hfirst, hnext⟩

theorem checkReleasePoints_eq_ok_iff {points : ReleasePoints} :
    checkReleasePoints points = .ok ()
      ↔ (∀ track, ∃ m, points.multipliers.get? track = some m ∧ m.IsFraction)
        ∧ ∀ track m, points.paroleMultipliers.get? track = some m → m.IsFraction := by
  simp only [checkReleasePoints, check_then_eq_ok_iff, Answered.forM_eq_ok,
    checkMultiplier_eq_ok_iff, checkFraction_eq_ok_iff, Prod.forall, Table.mem_toList,
    Enumeration.mem_all, true_implies]

theorem checkCurfew_eq_ok_iff {scheme : String} {terms : CurfewTerms} :
    checkCurfew scheme terms = .ok () ↔ terms.Usable := by
  have husable : terms.Usable ↔ terms.tracks ≠ []
      ∧ (0 ≤ terms.minimumCustodialDays ∧ 0 ≤ terms.minimumEligibilityDays)
      ∧ ∀ minimum maximum, terms.minimumYears = some minimum →
        terms.maximumYears = some maximum → minimum < maximum :=
    ⟨fun h => ⟨h.tracks_ne_nil, ⟨h.custodial_nonneg, h.eligibility_nonneg⟩, h.years_lt⟩,
      fun h => ⟨h.1, h.2.1.1, h.2.1.2, h.2.2⟩⟩
  rw [checkCurfew, check_then_eq_ok_iff, check_then_eq_ok_iff, demand_eq_ok_iff, demand_eq_ok_iff,
    husable]
  simp only [Bool.not_eq_true', List.isEmpty_eq_false_iff, Bool.and_eq_true, decide_eq_true_eq]
  refine and_congr_right fun _ => and_congr_right fun _ => ?_
  cases terms.minimumYears <;> cases terms.maximumYears <;> simp [demand_eq_ok_iff]

theorem checkRemoval_eq_ok_iff {terms : RemovalTerms} :
    checkRemoval terms = .ok ()
      ↔ terms.fractions ≠ [] ∧ ∀ entry ∈ terms.fractions, entry.fraction.IsFraction := by
  simp only [checkRemoval, check_then_eq_ok_iff, demand_eq_ok_iff, Bool.not_eq_true',
    List.isEmpty_eq_false_iff, Answered.forM_eq_ok, checkFraction_eq_ok_iff]

/-- **What is checked of a configuration.** -/
theorem check_eq_ok_iff {c : Config} : c.check = .ok () ↔ c.Usable := by
  simp only [check, checkEarlyRelease, check_then_eq_ok_iff, checkReleasePoints_eq_ok_iff,
    checkCurfew_eq_ok_iff, checkRemoval_eq_ok_iff, demand_eq_ok_iff, decide_eq_true_eq]
  -- the checks of the two curfews are what is asked of every variant
  constructor
  · rintro ⟨⟨hmultiplier, hparole⟩, hhdced, hhdced4plus, ⟨hne, hfraction⟩, htranches⟩
    refine ⟨hmultiplier, hparole, fun variant => ?_, hne, hfraction, htranches⟩
    cases variant with
    | hdced => exact hhdced
    | hdced4plus => exact hhdced4plus
  · intro h
    exact ⟨⟨h.multiplier, h.parole⟩, h.curfew .hdced, h.curfew .hdced4plus,
      ⟨h.fractions_ne_nil, h.fraction⟩, h.tranches_lt⟩

theorem load_eq_ok_iff {directory : String} {text? : ConfigFile → Option String} {c : Config} :
    load directory text? = .ok c ↔ assemble directory text? = .ok c ∧ c.Usable := by
  simp only [load, Answered.bind_eq_ok, Answered.pure_eq_ok, ← check_eq_ok_iff]
  constructor
  · rintro ⟨_, hassembled, ⟨⟩, hchecked, rfl⟩
    exact ⟨hassembled, hchecked⟩
  · rintro ⟨hassembled, hchecked⟩
    exact ⟨c, hassembled, (), hchecked, rfl⟩

/-- **What is loaded can be used.** -/
theorem usable_of_load {directory : String} {text? : ConfigFile → Option String} {c : Config}
    (h : load directory text? = .ok c) : c.Usable :=
  (load_eq_ok_iff.mp h).2

end Config

/-! ## England and Wales -/

namespace RemovalTerms

/-- The fractions in order, as one being put in its place after the other. -/
theorem sorted_eq_insertionSort (terms : RemovalTerms) :
    terms.sorted = { terms with
      fractions := terms.fractions.insertionSort fun a b =>
        decide (a.effectiveFrom ≤ b.effectiveFrom) } := by
  rw [sorted, Sorting.mergeSort_eq_insertionSort EffectiveFraction.effectiveFrom_trans
    EffectiveFraction.effectiveFrom_total]

end RemovalTerms

namespace EnglandAndWales

/-! ### Each file makes up its part

Texts are taken apart into characters line by line first, so that reading one is a computation on
characters. -/

theorem releasePoints?_text :
    (Yaml.ofText? releasePointsText).bind Config.releasePoints? = some releasePoints := by
  simp only [Yaml.ofText?, Yaml.lines?, releasePointsText, String.toList_intercalate,
    List.map_cons, List.map_nil]
  repeat rw [String.toList_ofList]
  decide +kernel

theorem curfews?_text :
    (Yaml.ofText? hdcedText).bind Config.curfews? = some (hdced, hdced4plus) := by
  simp only [Yaml.ofText?, Yaml.lines?, hdcedText, String.toList_intercalate,
    List.map_cons, List.map_nil]
  repeat rw [String.toList_ofList]
  decide +kernel

theorem removalTerms?_text : (Yaml.ofText? ersedText).bind Config.removalTerms? = some ersed := by
  simp only [Yaml.ofText?, Yaml.lines?, ersedText, String.toList_intercalate,
    List.map_cons, List.map_nil]
  repeat rw [String.toList_ofList]
  decide +kernel

theorem supervisionTerms?_text :
    (Yaml.ofText? tusedText).bind Config.supervisionTerms? = some tused := by
  simp only [Yaml.ofText?, Yaml.lines?, tusedText, String.toList_intercalate,
    List.map_cons, List.map_nil]
  repeat rw [String.toList_ofList]
  decide +kernel

theorem earlyReleaseTerms?_text :
    (Yaml.ofText? earlyReleaseText).bind Config.earlyReleaseTerms? = some earlyRelease := by
  simp only [Yaml.ofText?, Yaml.lines?, earlyReleaseText, String.toList_intercalate,
    List.map_cons, List.map_nil]
  repeat rw [String.toList_ofList]
  decide +kernel

theorem commencements?_text :
    (Yaml.ofText? commencementDatesText).bind Config.commencements? = some commencements := by
  simp only [Yaml.ofText?, Yaml.lines?, commencementDatesText, String.toList_intercalate,
    List.map_cons, List.map_nil]
  repeat rw [String.toList_ofList]
  decide +kernel

theorem classificationTerms?_text :
    (Yaml.ofText? classificationText).bind Config.classificationTerms? = some classification := by
  simp only [Yaml.ofText?, Yaml.lines?, classificationText, String.toList_intercalate,
    List.map_cons, List.map_nil]
  repeat rw [String.toList_ofList]
  decide +kernel

theorem bankHolidays?_text :
    (Yaml.ofText? bankHolidaysText).bind Config.bankHolidays? = some bankHolidays := by
  have hline : String.toList ∘ (fun date : String => "  - " ++ date)
      = fun date => "  - ".toList ++ date.toList := by
    funext date
    exact String.toList_append
  unfold Yaml.ofText? Yaml.lines? bankHolidaysText
  rw [String.toList_append, String.toList_intercalate, List.map_map, hline]
  simp only [List.map_cons, List.map_nil]
  repeat rw [String.toList_ofList]
  decide +kernel

/-! ### The whole -/

theorem config_usable : config.Usable := by
  rw [← Config.check_eq_ok_iff]
  decide +kernel

/-- The files with another text of release points. -/
def withReleasePoints (points : String) : ConfigFile → String
  | .releasePoints => points
  | file => text file

theorem withReleasePoints_text : withReleasePoints releasePointsText = text := by
  funext file
  cases file <;> rfl

theorem readFile_withReleasePoints {α : Type} {directory points : String} (file : ConfigFile)
    {read? : Yaml → Option α} {part : α}
    (h : (Yaml.ofText? (withReleasePoints points file)).bind read? = some part) :
    Config.readFile directory (fun file => some (withReleasePoints points file)) file read?
      = .ok part :=
  Answered.bind_eq_ok.mpr ⟨_, rfl, Answered.orFail_eq_ok.mpr h⟩

/-- With other release points the rest of the configuration is as it was. -/
theorem load_withReleasePoints (directory : String) {pointsText : String} {points : ReleasePoints}
    (hpoints : (Yaml.ofText? pointsText).bind Config.releasePoints? = some points)
    (husable : Config.Usable { config with releasePoints := points }) :
    Config.load directory (fun file => some (withReleasePoints pointsText file))
      = .ok { config with releasePoints := points } := by
  have hsorted : ersed.sorted = ersed := by
    rw [RemovalTerms.sorted_eq_insertionSort]
    decide +kernel
  -- every file but the one is read as it was
  rw [Config.load_eq_ok_iff]
  refine ⟨?_, husable⟩
  simp only [Config.assemble, readFile_withReleasePoints .releasePoints hpoints,
    readFile_withReleasePoints .hdced curfews?_text,
    readFile_withReleasePoints .ersed removalTerms?_text,
    readFile_withReleasePoints .tused supervisionTerms?_text,
    readFile_withReleasePoints .earlyRelease earlyReleaseTerms?_text,
    readFile_withReleasePoints .commencementDates commencements?_text,
    readFile_withReleasePoints .classification classificationTerms?_text,
    readFile_withReleasePoints .bankHolidays bankHolidays?_text]
  change Except.ok { config with releasePoints := points, ersed := ersed.sorted }
    = Except.ok { config with releasePoints := points }
  rw [hsorted]
  rfl

/-- **The files make up the configuration**, in whatever directory they are. -/
theorem load_text (directory : String) :
    Config.load directory (fun file => some (text file)) = .ok config := by
  have hload := load_withReleasePoints directory releasePoints?_text config_usable
  rw [withReleasePoints_text] at hload
  exact hload

end EnglandAndWales

end Custody
