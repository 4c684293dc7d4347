import Custody.Proofs.Calendar.Advance
import Custody.Sentence.Aggregate

/-!
# Parts are laid end to end

The parts of a sentence cover the time from its sentencing to its end without gap or overlap. The
relation `Contiguous start parts finish` says so part by part, and whatever is counted over the
parts is bounded through it.

* **`layOut_contiguous`**: laying out components gives contiguous parts.
* **`Contiguous.custodialDays_le`**: the custodial terms of the parts are within the whole.
* **`layOut_tracks`**: each part is on the track of the component it is of.
-/

namespace Custody

open Custody.Calendar

/-- Parts that follow one another from one date to another, each with its custodial term inside. -/
inductive Contiguous : Date → List Part → Date → Prop where
  | nil (date : Date) : Contiguous date [] date
  | cons {part : Part} {rest : List Part} {finish : Date}
      (hcustody : part.start.day ≤ part.custodialEnd.day)
      (hlicence : part.custodialEnd.day ≤ part.finish.day)
      (hrest : Contiguous part.finish rest finish) :
      Contiguous part.start (part :: rest) finish

namespace Contiguous

variable {start finish : Date} {parts : List Part}

/-- Time does not run backwards over contiguous parts. -/
theorem day_le (h : Contiguous start parts finish) : start.day ≤ finish.day := by
  induction h with
  | nil => exact le_rfl
  | cons hcustody hlicence _ ih => omega

theorem custodialDays_nonneg (h : Contiguous start parts finish) :
    ∀ p ∈ parts, 0 ≤ p.custodialDays := by
  induction h with
  | nil => simp
  | cons hcustody _ _ ih =>
    intro p hp
    rcases List.mem_cons.mp hp with rfl | hp
    · simp only [Part.custodialDays, Date.daysUntil]
      omega
    · exact ih p hp

/-- The custodial terms add up to no more than the whole. -/
theorem custodialDays_le (h : Contiguous start parts finish) :
    totalOf Part.custodialDays parts ≤ start.daysUntil finish := by
  induction h with
  | nil => simp [Date.daysUntil]
  | cons hcustody hlicence _ ih =>
    rw [totalOf_cons]
    simp only [Part.custodialDays, Date.daysUntil] at ih ⊢
    omega

theorem days_nonneg (h : Contiguous start parts finish) : ∀ p ∈ parts, 0 ≤ p.days := by
  induction h with
  | nil => exact fun _ hp => absurd hp List.not_mem_nil
  | cons hcustody hlicence _ ih =>
    rw [List.forall_mem_cons]
    refine ⟨?_, ih⟩
    simp only [Part.days, Date.daysUntil]
    omega

/-- The parts are as long together as the whole. -/
theorem totalOf_days (h : Contiguous start parts finish) :
    totalOf Part.days parts = start.daysUntil finish := by
  induction h with
  | nil => simp [Date.daysUntil]
  | cons _ _ _ ih =>
    rw [totalOf_cons, ih]
    simp only [Part.days, Date.daysUntil]
    omega

end Contiguous

/-! ## What is laid out is contiguous -/

theorem Term.ends_le {t : Term} {start : Date} {ends : Date × Date} (h : t.ends start = .ok ends) :
    start.day ≤ ends.1.day ∧ ends.1.day ≤ ends.2.day := by
  -- the whole term is custodial, but for the further period of an extended sentence
  cases t with
  | standard term =>
    simp only [Term.ends, Answered.bind_eq_ok, Answered.pure_eq_ok] at h
    obtain ⟨finish, hfinish, rfl⟩ := h
    exact ⟨Duration.day_le_of_endDate hfinish, le_rfl⟩
  | botus duration =>
    simp only [Term.ends, Answered.bind_eq_ok, Answered.pure_eq_ok] at h
    obtain ⟨finish, hfinish, rfl⟩ := h
    exact ⟨Duration.day_le_of_endDate hfinish, le_rfl⟩
  | extended custodial licence =>
    simp only [Term.ends, Answered.bind_eq_ok, Answered.pure_eq_ok] at h
    obtain ⟨custodialEnd, hcustody, finish, hfinish, rfl⟩ := h
    exact ⟨Duration.day_le_of_endDate hcustody, Duration.day_le_of_endDate hfinish⟩

theorem Single.servedFrom_eq_ok {s : Single} {start : Date} {p : Part} :
    s.servedFrom start = .ok p ↔ ∃ ends, s.term.ends start = .ok ends
      ∧ p = ⟨s.identifier, s.track, start, ends.1, ends.2⟩ := by
  simp only [Single.servedFrom, Answered.bind_eq_ok, Answered.pure_eq_ok]
  exact exists_congr fun ends => and_congr_right fun _ => eq_comm

namespace Sentence

theorem layOut_cons_eq_ok {start : Date} {s : Sentence} {rest : List Sentence}
    {laid : List Part × Date} :
    layOut start (s :: rest) = .ok laid ↔ ∃ single part laid', s.single? = some single
      ∧ single.servedFrom start = .ok part ∧ layOut part.finish rest = .ok laid'
      ∧ laid = (part :: laid'.1, laid'.2) := by
  simp only [layOut, Answered.bind_eq_ok, Answered.orFail_eq_ok, Answered.pure_eq_ok]
  constructor
  · rintro ⟨single, hsingle, part, hpart, laid', hlaid, rfl⟩
    exact ⟨single, part, laid', hsingle, hpart, hlaid, rfl⟩
  · rintro ⟨single, part, laid', hsingle, hpart, hlaid, rfl⟩
    exact ⟨single, hsingle, part, hpart, laid', hlaid, rfl⟩

/-- **Parts are laid end to end.** Each starts where the one before it finishes, by induction on the
components with the place where the next one starts. -/
theorem layOut_contiguous {start : Date} {components : List Sentence} {laid : List Part × Date}
    (h : layOut start components = .ok laid) : Contiguous start laid.1 laid.2 := by
  induction components generalizing start laid with
  | nil =>
    cases h
    exact .nil start
  | cons s rest ih =>
    obtain ⟨single, part, laid', _, hpart, hlaid, rfl⟩ := layOut_cons_eq_ok.mp h
    obtain ⟨ends, hends, rfl⟩ := Single.servedFrom_eq_ok.mp hpart
    have hle := Term.ends_le hends
    exact @Contiguous.cons ⟨single.identifier, single.track, start, ends.1, ends.2⟩ _ _
      hle.1 hle.2 (ih hlaid)

theorem layOut_tracks {start : Date} {components : List Sentence} {laid : List Part × Date}
    (h : layOut start components = .ok laid) :
    laid.1.map Part.track = (components.filterMap single?).map Single.track := by
  induction components generalizing start laid with
  | nil =>
    cases h
    rfl
  | cons s rest ih =>
    obtain ⟨single, part, laid', hsingle, hpart, hlaid, rfl⟩ := layOut_cons_eq_ok.mp h
    obtain ⟨ends, _, rfl⟩ := Single.servedFrom_eq_ok.mp hpart
    rw [List.filterMap_cons_some hsingle, List.map_cons, List.map_cons, ih hlaid]

/-- A sentence that was passed on a date has components. -/
theorem components_ne_nil_of_sentencedAt? {s : Sentence} {date : Date}
    (h : s.sentencedAt? = some date) : s.components ≠ [] := by
  cases s with
  | single s => exact List.cons_ne_nil _ _
  | chain parts track =>
    intro hnil
    rw [components] at hnil
    subst hnil
    cases h

/-- **A sentence is laid out from the date on which it was passed.** -/
theorem aggregate_eq_ok {s : Sentence} {a : Aggregate} :
    s.aggregate = .ok a ↔ s.sentencedAt? = some a.sentencedAt
      ∧ layOut a.sentencedAt s.components = .ok (a.parts, a.finish) := by
  rw [aggregate]
  by_cases hempty : s.components = []
  · -- without components there is no earliest date either
    rw [hempty, List.isEmpty_nil, if_pos rfl]
    constructor
    · intro h
      cases h
    · rintro ⟨hsentenced, _⟩
      exact absurd hempty (components_ne_nil_of_sentencedAt? hsentenced)
  · rw [if_neg (by rwa [List.isEmpty_iff])]
    simp only [Answered.bind_eq_ok, Answered.orFail_eq_ok, Answered.pure_eq_ok]
    constructor
    · rintro ⟨sentencedAt, hsentenced, laid, hlaid, rfl⟩
      exact ⟨hsentenced, hlaid⟩
    · rintro ⟨hsentenced, hlaid⟩
      exact ⟨a.sentencedAt, hsentenced, _, hlaid, rfl⟩

theorem aggregate_contiguous {s : Sentence} {a : Aggregate} (h : s.aggregate = .ok a) :
    Contiguous a.sentencedAt a.parts a.finish :=
  layOut_contiguous (aggregate_eq_ok.mp h).2

theorem aggregate_tracks {s : Sentence} {a : Aggregate} (h : s.aggregate = .ok a) :
    a.parts.map Part.track = s.singles.map Single.track :=
  layOut_tracks (aggregate_eq_ok.mp h).2

end Sentence

end Custody
