import Custody.Config.EnglandAndWales
import Custody.Proofs.Sentence.Earliest
import Custody.Proofs.Sentence.InDays

/-!
# Sentences served end to end

A sentence is served in parts, one for each component. The first part starts on the date on which
the sentence was passed, which is the earliest that one of its components was passed on, and every
other starts where the one before it ends. How long a part is follows from its durations and from
where it starts, so in general the order of the components decides on how long the whole is. It does
not where they count weeks and days alone.

* **`Part.IsOf`**: a part as its component has it.
* **`Contiguous.isChain_start`**: each part starts where the one before it ends.
* **`Sentence.exists_aggregate_of_perm`**: components that count days, in another order.
* **`Sentence.aggregate_endToEnd`**: the parts of a sentence.
-/

namespace Custody

open Custody.Calendar

/-! ## One part for each component -/

/-- A part that serves a component. It ends where the durations of the component lead from its
start, and is custodial up to there unless the component is extended. -/
structure Part.IsOf (p : Part) (s : Single) : Prop where
  identifier : p.identifier = s.identifier
  track : p.track = s.track
  ends : s.term.ends p.start = .ok (p.custodialEnd, p.finish)
  custodialDays_nonneg : 0 ≤ p.custodialDays
  custodialDays_le : p.custodialDays ≤ p.days
  custodialDays_eq : s.term.isExtended = false → p.custodialDays = p.days

/-- All of a term is custodial, but for that of an extended sentence. -/
theorem Term.ends_eq_of_not_extended {t : Term} {start custodialEnd finish : Date}
    (h : t.ends start = .ok (custodialEnd, finish)) (hterm : t.isExtended = false) :
    custodialEnd = finish := by
  cases t with
  | standard term =>
    simp only [ends, Answered.bind_eq_ok, Answered.pure_eq_ok, Prod.mk.injEq] at h
    obtain ⟨_, _, rfl, rfl⟩ := h
    rfl
  | botus duration =>
    simp only [ends, Answered.bind_eq_ok, Answered.pure_eq_ok, Prod.mk.injEq] at h
    obtain ⟨_, _, rfl, rfl⟩ := h
    rfl
  | extended custodial licence => cases hterm

theorem Part.isOf_of_servedFrom {s : Single} {start : Date} {p : Part}
    (h : s.servedFrom start = .ok p) : p.IsOf s := by
  obtain ⟨⟨custodialEnd, finish⟩, hends, rfl⟩ := Single.servedFrom_eq_ok.mp h
  -- custody ends within the term
  obtain ⟨hcustody, hlicence⟩ : start.day ≤ custodialEnd.day ∧ custodialEnd.day ≤ finish.day :=
    Term.ends_le hends
  refine ⟨rfl, rfl, hends, ?_, ?_, ?_⟩
  · simp only [custodialDays, Date.daysUntil]
    omega
  · simp only [custodialDays, days, Date.daysUntil]
    omega
  · intro hterm
    rw [custodialDays, days, Term.ends_eq_of_not_extended hends hterm]

/-- Only single sentences are laid out, and each in a part of its own. -/
theorem Sentence.layOut_isOf {start : Date} {components : List Sentence} {laid : List Part × Date}
    (h : layOut start components = .ok laid) :
    ∃ ss : List Single, components = ss.map single ∧ List.Forall₂ Part.IsOf laid.1 ss := by
  induction components generalizing start laid with
  | nil =>
    cases h
    exact ⟨[], rfl, .nil⟩
  | cons s rest ih =>
    obtain ⟨first, part, laid', hsingle, hpart, hlaid, rfl⟩ := layOut_cons_eq_ok.mp h
    obtain ⟨ss, rfl, hparts⟩ := ih hlaid
    cases s with
    | single s =>
      cases hsingle
      exact ⟨first :: ss, rfl, .cons (Part.isOf_of_servedFrom hpart) hparts⟩
    | chain _ _ => cases hsingle

/-! ## Where the parts start -/

namespace Contiguous

variable {start finish : Date} {parts : List Part}

theorem head?_start (h : Contiguous start parts finish) (hne : parts ≠ []) :
    parts.head?.map Part.start = some start := by
  cases h with
  | nil => exact absurd rfl hne
  | cons => rfl

/-- **Each part starts where the one before it ends.** -/
theorem isChain_start (h : Contiguous start parts finish) :
    parts.IsChain fun p q => q.start.day = p.start.day + p.days := by
  induction h with
  | nil => exact .nil
  | @cons part rest finish _ _ hrest ih =>
    cases rest with
    | nil => exact .singleton part
    | cons next rest =>
      -- the next part starts where this one finishes
      have hnext : next.start = part.finish :=
        Option.some.inj (hrest.head?_start (List.cons_ne_nil next rest))
      refine .cons_cons ?_ ih
      rw [hnext, Part.days, Date.daysUntil]
      omega

end Contiguous

/-! ## Components in another order -/

theorem dayTotal_perm {ss ss' : List Single} (h : ss.Perm ss') : dayTotal ss = dayTotal ss' := by
  induction h with
  | nil => rfl
  | cons s _ ih => rw [dayTotal_cons, dayTotal_cons, ih]
  | swap s s' ss =>
    simp only [dayTotal_cons]
    omega
  | trans _ _ ih ih' => exact ih.trans ih'

namespace Sentence

variable {ss ss' : List Single} {unit : Sentence} {a : Aggregate}

/-- The days of components that count days are those that they count. -/
theorem totalDays_of_inDays (hcomponents : unit.components = ss.map single)
    (hdays : ∀ s ∈ ss, s.term.InDays) (h : unit.aggregate = .ok a) : a.totalDays = dayTotal ss := by
  obtain ⟨_, hlaid⟩ := aggregate_eq_ok.mp h
  rw [hcomponents] at hlaid
  have hfinish := (exists_layOut_iff hdays).mp ⟨a.parts, hlaid⟩
  rw [Aggregate.totalDays, Date.daysUntil]
  omega

/-- **In another order components that count days are served over the same time.** -/
theorem exists_aggregate_of_perm (hcomponents : unit.components = ss.map single)
    (hdays : ∀ s ∈ ss, s.term.InDays) (h : unit.aggregate = .ok a) (hperm : ss.Perm ss')
    (track : Option Track) :
    ∃ a', (chain (ss'.map single) track).aggregate = .ok a' ∧ a'.totalDays = a.totalDays := by
  have hdays' : ∀ s ∈ ss', s.term.InDays := fun s hs => hdays s (hperm.mem_iff.mpr hs)
  obtain ⟨hsentenced, hlaid⟩ := aggregate_eq_ok.mp h
  -- the other order begins on the same date, and so ends on the same
  have hsentenced' : (chain (ss'.map single) track).sentencedAt? = some a.sentencedAt := by
    rw [sentencedAt?_eq_min? hcomponents] at hsentenced
    rw [sentencedAt?_eq_min? rfl, ← Date.min?_eq_of_perm (hperm.map _), hsentenced]
  rw [hcomponents] at hlaid
  have hfinish := (exists_layOut_iff hdays).mp ⟨a.parts, hlaid⟩
  rw [dayTotal_perm hperm] at hfinish
  obtain ⟨parts, hlaid'⟩ := (exists_layOut_iff hdays').mpr hfinish
  exact ⟨⟨a.sentencedAt, a.finish, parts⟩, aggregate_eq_ok.mpr ⟨hsentenced', hlaid'⟩, rfl⟩

end Sentence

/-! ## The parts of a sentence -/

/-- A layout of components end to end, from the earliest of their dates. -/
structure Aggregate.EndToEnd (a : Aggregate) (ss : List Single) : Prop where
  parts : List.Forall₂ Part.IsOf a.parts ss
  first : a.parts.head?.map Part.start = some a.sentencedAt
  next : a.parts.IsChain fun p q => q.start.day = p.start.day + p.days
  sentencedAt_mem : ∃ s ∈ ss, s.sentencedAt = a.sentencedAt
  sentencedAt_le : ∀ s ∈ ss, a.sentencedAt ≤ s.sentencedAt
  totalDays : a.totalDays = totalOf Part.days a.parts

namespace Sentence

variable {unit : Sentence} {a : Aggregate}

/-- **A sentence is served end to end**, in one part for each component and in their order. Where
they count weeks and days alone, it is served for as many days as they count, in any order. -/
theorem aggregate_endToEnd (h : unit.aggregate = .ok a) :
    ∃ ss : List Single, unit.components = ss.map single
      ∧ unit.sentencedAt? = some a.sentencedAt ∧ a.EndToEnd ss
      ∧ ((∀ s ∈ ss, s.term.InDays) → a.totalDays = dayTotal ss ∧ ∀ ss' track, ss.Perm ss' →
        ∃ a', (chain (ss'.map single) track).aggregate = .ok a' ∧ a'.totalDays = a.totalDays) := by
  obtain ⟨hsentenced, hlaid⟩ := aggregate_eq_ok.mp h
  obtain ⟨ss, hcomponents, hparts⟩ := layOut_isOf hlaid
  have hcontiguous : Contiguous a.sentencedAt a.parts a.finish := layOut_contiguous hlaid
  have hearliest := hsentenced
  rw [sentencedAt?_eq_min? hcomponents, List.min?_eq_some_iff] at hearliest
  obtain ⟨hmem, hle⟩ := hearliest
  -- the earliest date is that of some component, so there are parts
  have hne : a.parts ≠ [] := by
    intro hnil
    rw [hnil, List.forall₂_nil_left_iff] at hparts
    rw [hparts] at hmem
    cases hmem
  refine ⟨ss, hcomponents, hsentenced, ⟨hparts, hcontiguous.head?_start hne,
    hcontiguous.isChain_start, List.mem_map.mp hmem, List.forall_mem_map.mp hle,
    hcontiguous.totalOf_days.symm⟩, fun hdays => ?_⟩
  exact ⟨totalDays_of_inDays hcomponents hdays h,
    fun ss' track hperm => exists_aggregate_of_perm hcomponents hdays h hperm track⟩

/-- Eight weeks in custody and ten days on licence. -/
def extendedByLicence : Single :=
  { Single.linked 1 none with
    sentencedAt := EnglandAndWales.on 2024 2 20
    term := .extended (Duration.of .weeks 8) (Duration.of .days 10) }

/-- Forty days, passed before. -/
def passedBefore : Single :=
  { Single.linked 2 none with
    sentencedAt := EnglandAndWales.on 2024 2 10
    term := .botus (Duration.of .days 40) }

/-- The first component is extended and the second was passed before it: both orders start on the
date of the second, and come to 106 days. -/
theorem aggregate_endToEnd_extendedFirst :
    ∃ a a', (chain [single extendedByLicence, single passedBefore] none).aggregate = .ok a
      ∧ a.sentencedAt = EnglandAndWales.on 2024 2 10
      ∧ a.EndToEnd [extendedByLicence, passedBefore] ∧ a.totalDays = 106
      ∧ (chain [single passedBefore, single extendedByLicence] none).aggregate = .ok a'
      ∧ a'.totalDays = 106 := by
  have heval : (fun a : Aggregate => (a.sentencedAt, a.totalDays))
      <$> (chain [single extendedByLicence, single passedBefore] none).aggregate
        = .ok (EnglandAndWales.on 2024 2 10, 106) := by
    decide +kernel
  obtain ⟨a, ha, hvalues⟩ := Answered.map_eq_ok.mp heval
  obtain ⟨hsentenced, htotal⟩ := Prod.mk.inj hvalues
  obtain ⟨ss, hcomponents, _, hends, hreorder⟩ := aggregate_endToEnd ha
  have hss : ss = [extendedByLicence, passedBefore] :=
    List.map_injective_iff.mpr (fun _ _ => single.inj) hcomponents.symm
  subst hss
  obtain ⟨a', ha', htotal'⟩ :=
    (hreorder (by decide +kernel)).2 [passedBefore, extendedByLicence] none (.swap _ _ _)
  exact ⟨a, a', ha, hsentenced, hends, htotal, ha', htotal'.trans htotal⟩

end Sentence

end Custody
