import Custody.Proofs.Unit.CurfewDate

/-!
# Schemes on a calculation in place

Here a scheme is work on one calculation that all steps share: it looks at what is there, and what
it puts in stays, also where a later step fails. It puts in its date last, when nothing can fail any
more, so work that fails leaves no trace. And no scheme looks at what another puts in, so they may
be taken in any order.

* **`Work.runOn`**: the answer of some work, and the calculation as the work leaves it.
* **`Eligibility.runOn_applyIn`**: what the work of one scheme comes to.
* **`Framed`**: what one scheme may change.
* **`Eligibility.runOn_applyEach_perm`**: any order comes to the same.
-/

namespace Custody

open Custody.Calendar

/-! ## Work on a calculation -/

/-- Steps on the calculation of a unit, each of which may fail. What has been changed by then stays
changed. -/
abbrev Work := ExceptT Failure (StateM UnitCalculation)

namespace Work

variable {α β : Type} {c c' : UnitCalculation}

/-- The answer of some work, and the calculation as the work leaves it. -/
def runOn (w : Work α) (c : UnitCalculation) : Answered α × UnitCalculation :=
  w.run.run c

@[simp] theorem runOn_pure (a : α) (c : UnitCalculation) :
    (pure a : Work α).runOn c = (.ok a, c) := rfl

@[simp] theorem runOn_get (c : UnitCalculation) : (get : Work _).runOn c = (.ok c, c) := rfl

@[simp] theorem runOn_liftM (x : Answered α) (c : UnitCalculation) :
    (liftM x : Work α).runOn c = (x, c) := by
  cases x <;> rfl

theorem runOn_bind (w : Work α) (f : α → Work β) (c : UnitCalculation) :
    (w >>= f).runOn c = match w.runOn c with
      | (.ok a, start) => (f a).runOn start
      | (.error failure, start) => (.error failure, start) := by
  change (match w.runOn c with
    | (answer, start) => (ExceptT.bindCont f answer).run start) = _
  rcases w.runOn c with ⟨_ | _, _⟩ <;> rfl

theorem runOn_bind_eq_ok {w : Work α} {f : α → Work β} {b : β} :
    (w >>= f).runOn c = (.ok b, c')
      ↔ ∃ a start, w.runOn c = (.ok a, start) ∧ (f a).runOn start = (.ok b, c') := by
  rw [runOn_bind]
  rcases w.runOn c with ⟨failure | a, start⟩
  · simp
  · simp

end Work

section

variable {config : Config} {offender : Offender} {unit : Sentence} {c c' : UnitCalculation}

namespace Eligibility

/-- Puts in the date of a scheme, when committals of so many days are served first. -/
def calculateIn (config : Config) (e : Eligibility) (botusDays : Int) : Work Unit := do
  let b ← e.date config (← get) botusDays
  modify (·.record e.kind b)

/-- Puts in the date of a scheme, if it applies, and says whether it does. -/
def applyIn (config : Config) (offender : Offender) (unit : Sentence) (e : Eligibility) :
    Work Bool := do
  if !(← e.applies config offender unit (← get)) then return false
  e.calculateIn config (← get).botusDaysFirst
  return true

/-- Takes schemes one after the other, and says of each whether it applies. -/
def applyEach (config : Config) (offender : Offender) (unit : Sentence)
    (schemes : List Eligibility) : Work (List (Eligibility × Bool)) :=
  schemes.mapM fun e => return (e, ← e.applyIn config offender unit)

end Eligibility

/-! ## One scheme -/

namespace UnitCalculation

/-- Puts in a date with its breakdown, if there is one. -/
def recordIfSome (c : UnitCalculation) (kind : DateKind) (found : Option Breakdown) :
    UnitCalculation :=
  (found.map (c.record kind)).getD c

theorem undated_recordIfSome (c : UnitCalculation) (kind : DateKind) (found : Option Breakdown) :
    (c.recordIfSome kind found).undated = c.undated := by
  cases found <;> rfl

theorem record_comm (c : UnitCalculation) {kind kind' : DateKind} (hne : kind ≠ kind')
    (b b' : Breakdown) :
    (c.record kind b).record kind' b' = (c.record kind' b').record kind b := by
  unfold record
  rw [Table.insert_comm _ hne, Table.insert_comm _ hne]

theorem recordIfSome_comm (c : UnitCalculation) {kind kind' : DateKind} (hne : kind ≠ kind')
    (found found' : Option Breakdown) :
    (c.recordIfSome kind found).recordIfSome kind' found'
      = (c.recordIfSome kind' found').recordIfSome kind found := by
  cases found with
  | none => rfl
  | some b =>
    cases found' with
    | none => rfl
    | some b' => exact c.record_comm hne b b'

end UnitCalculation

/-- What a scheme may do to a calculation: change nothing, whether it fails or does not apply, or
put in its date with the breakdown and change nothing else. -/
inductive Framed (kind : DateKind) (before : UnitCalculation) :
    Answered Bool → UnitCalculation → Prop where
  | failed (failure : Failure) : Framed kind before (.error failure) before
  | notApplied : Framed kind before (.ok false) before
  | recorded {after : UnitCalculation} (b : Breakdown)
      (undated : after.undated = before.undated)
      (date : after.date? kind = some b.releaseDate)
      (breakdown : after.breakdowns.get? kind = some b)
      (others : ∀ j, j ≠ kind → after.date? j = before.date? j
        ∧ after.breakdowns.get? j = before.breakdowns.get? j) :
      Framed kind before (.ok true) after

theorem Framed.eq_of_ne_true {kind : DateKind} {before after : UnitCalculation}
    {answer : Answered Bool} (h : Framed kind before answer after) (hanswer : answer ≠ .ok true) :
    after = before := by
  cases h with
  | failed => rfl
  | notApplied => rfl
  | recorded => exact absurd rfl hanswer

namespace Eligibility

theorem runOn_calculateIn (e : Eligibility) (botusDays : Int) (c : UnitCalculation) :
    (e.calculateIn config botusDays).runOn c = match e.date config c botusDays with
      | .ok b => (.ok (), c.record e.kind b)
      | .error failure => (.error failure, c) := by
  simp only [calculateIn, Work.runOn_bind, Work.runOn_get, Work.runOn_liftM]
  cases e.date config c botusDays <;> rfl

/-- **What the work of a scheme comes to.** -/
theorem runOn_applyIn (e : Eligibility) (c : UnitCalculation) :
    (e.applyIn config offender unit).runOn c = match e.date? config offender unit c with
      | .ok found => (.ok found.isSome, c.recordIfSome e.kind found)
      | .error failure => (.error failure, c) := by
  simp only [applyIn, date?, Work.runOn_bind, Work.runOn_get, Work.runOn_liftM]
  -- failing and not applying leave the calculation as it is
  cases e.applies config offender unit c with
  | error failure => rfl
  | ok applies =>
    cases applies with
    | false => rfl
    | true =>
      simp only [Bool.not_true, Bool.false_eq_true, if_false, Work.runOn_bind, Work.runOn_get,
        runOn_calculateIn]
      cases e.date config c c.botusDaysFirst <;> rfl

theorem runOn_applyIn_eq_ok {e : Eligibility} {applied : Bool} :
    (e.applyIn config offender unit).runOn c = (.ok applied, c')
      ↔ ∃ found, e.date? config offender unit c = .ok found ∧ found.isSome = applied
        ∧ c.recordIfSome e.kind found = c' := by
  rw [runOn_applyIn]
  cases e.date? config offender unit c <;> simp

/-- The answer is that on the calculation by itself, which is then given back. -/
theorem apply_eq_runOn_applyIn (e : Eligibility) (c : UnitCalculation) :
    e.apply config offender unit c
      = (fun applied => (((e.applyIn config offender unit).runOn c).2, applied))
        <$> ((e.applyIn config offender unit).runOn c).1 := by
  rw [runOn_applyIn, apply]
  rcases e.date? config offender unit c with _ | _ | _ <;> rfl

/-- **One scheme changes no more than its own date**, and nothing where it fails. -/
theorem framed_applyIn (e : Eligibility) (c : UnitCalculation) :
    Framed e.kind c ((e.applyIn config offender unit).runOn c).1
      ((e.applyIn config offender unit).runOn c).2 := by
  rw [runOn_applyIn]
  rcases e.date? config offender unit c with failure | _ | b
  · exact .failed failure
  · exact .notApplied
  · refine .recorded b rfl (if_pos rfl) (if_pos rfl) fun j hj => ⟨?_, ?_⟩
    · exact (c.date?_record e.kind j b).trans (if_neg hj)
    · exact (c.breakdowns.get?_insert e.kind j b).trans (if_neg hj)

/-! ## Schemes in any order -/

/-- A scheme that comes after another gives what it gives without it. -/
theorem date?_recordIfSome (e e' : Eligibility) (found : Option Breakdown) :
    e'.date? config offender unit (c.recordIfSome e.kind found)
      = e'.date? config offender unit c := by
  refine date?_congr (c.undated_recordIfSome e.kind found) ?_ e'
  cases found with
  | none => rfl
  | some b =>
    refine UnitCalculation.releaseDate?_congr fun kind hkind => ?_
    -- neither kind of release is that of a scheme
    have hne : kind ≠ e.kind := fun heq => e.kind_not.2 (heq ▸ hkind)
    exact (c.date?_record e.kind kind b).trans (if_neg hne)

/-- **Two schemes may change places.** -/
theorem runOn_applyIn_comm {e e' : Eligibility} {applied applied' : Bool}
    {start : UnitCalculation} (h : (e.applyIn config offender unit).runOn c = (.ok applied, start))
    (h' : (e'.applyIn config offender unit).runOn start = (.ok applied', c')) :
    ∃ start', (e'.applyIn config offender unit).runOn c = (.ok applied', start')
      ∧ (e.applyIn config offender unit).runOn start' = (.ok applied, c') := by
  obtain ⟨found, hfound, rfl, rfl⟩ := runOn_applyIn_eq_ok.mp h
  obtain ⟨found', hfound', rfl, rfl⟩ := runOn_applyIn_eq_ok.mp h'
  rw [date?_recordIfSome] at hfound'
  refine ⟨c.recordIfSome e'.kind found', runOn_applyIn_eq_ok.mpr ⟨found', hfound', rfl, rfl⟩,
    runOn_applyIn_eq_ok.mpr ⟨found, ?_, rfl, ?_⟩⟩
  · rw [date?_recordIfSome, hfound]
  · by_cases hsame : e = e'
    · -- a scheme that comes twice gives the same both times
      subst hsame
      rw [hfound] at hfound'
      cases hfound'
      rfl
    · exact c.recordIfSome_comm (fun heq => hsame (kind_injective heq).symm) found' found

theorem runOn_applyEach_cons {e : Eligibility} {schemes : List Eligibility}
    {answers : List (Eligibility × Bool)} :
    (applyEach config offender unit (e :: schemes)).runOn c = (.ok answers, c')
      ↔ ∃ applied start rest, (e.applyIn config offender unit).runOn c = (.ok applied, start)
        ∧ (applyEach config offender unit schemes).runOn start = (.ok rest, c')
        ∧ answers = (e, applied) :: rest := by
  unfold applyEach
  simp only [List.mapM_cons, Work.runOn_bind_eq_ok, Work.runOn_pure, Prod.mk.injEq, Except.ok.injEq]
  constructor
  · rintro ⟨_, _, ⟨applied, start, happly, rfl, rfl⟩, rest, _, hrest, rfl, rfl⟩
    exact ⟨applied, start, rest, happly, hrest, rfl⟩
  · rintro ⟨applied, start, rest, happly, hrest, rfl⟩
    exact ⟨_, _, ⟨applied, start, happly, rfl, rfl⟩, rest, _, hrest, rfl, rfl⟩

/-- **Any order comes to the same**, by induction on how one order is brought into the other. -/
theorem runOn_applyEach_perm {schemes schemes' : List Eligibility} (hperm : schemes.Perm schemes')
    {answers : List (Eligibility × Bool)}
    (h : (applyEach config offender unit schemes).runOn c = (.ok answers, c')) :
    ∃ answers', (applyEach config offender unit schemes').runOn c = (.ok answers', c')
      ∧ answers.Perm answers' := by
  induction hperm generalizing c c' answers with
  | nil => exact ⟨answers, h, .refl _⟩
  | cons e _ ih =>
    obtain ⟨applied, start, rest, happly, hrest, rfl⟩ := runOn_applyEach_cons.mp h
    obtain ⟨rest', hrest', hanswers⟩ := ih hrest
    exact ⟨_, runOn_applyEach_cons.mpr ⟨applied, start, rest', happly, hrest', rfl⟩,
      hanswers.cons _⟩
  | swap e e' schemes =>
    obtain ⟨applied', _, _, happly', hothers, rfl⟩ := runOn_applyEach_cons.mp h
    obtain ⟨applied, _, rest, happly, hrest, rfl⟩ := runOn_applyEach_cons.mp hothers
    -- the two schemes at the front change places
    obtain ⟨start, happly, happly'⟩ := runOn_applyIn_comm happly' happly
    have hsecond := runOn_applyEach_cons.mpr ⟨applied', _, rest, happly', hrest, rfl⟩
    exact ⟨_, runOn_applyEach_cons.mpr ⟨applied, start, _, happly, hsecond, rfl⟩, .swap _ _ _⟩
  | trans _ _ ih ih' =>
    obtain ⟨_, h, hanswers⟩ := ih h
    obtain ⟨answers', h', hanswers'⟩ := ih' h
    exact ⟨answers', h', hanswers.trans hanswers'⟩

/-- **Schemes do not get in each other's way.** Each changes nothing of a calculation but its own
date, and not even that where it fails or does not apply; and any of them, in any order in which
they all succeed, come to the same in every other order, with the same answers. -/
theorem schemes_framed_and_commute (config : Config) (offender : Offender) (unit : Sentence)
    (c : UnitCalculation) :
    (∀ e : Eligibility,
      Framed e.kind c ((e.applyIn config offender unit).runOn c).1
        ((e.applyIn config offender unit).runOn c).2
      ∧ e.apply config offender unit c
        = (fun applied => (((e.applyIn config offender unit).runOn c).2, applied))
          <$> ((e.applyIn config offender unit).runOn c).1)
    ∧ ∀ schemes schemes' : List Eligibility, schemes.Perm schemes' → ∀ answers c',
      (applyEach config offender unit schemes).runOn c = (.ok answers, c') →
        ∃ answers', (applyEach config offender unit schemes').runOn c = (.ok answers', c')
          ∧ answers.Perm answers' :=
  ⟨fun e => ⟨e.framed_applyIn c, e.apply_eq_runOn_applyIn c⟩,
    fun _ _ hperm _ _ h => runOn_applyEach_perm hperm h⟩

end Eligibility

end

/-! ## England and Wales -/

namespace EnglandAndWales

/-- Four hundred days of the early release scheme. -/
def fourHundredDays : Sentence := .single (onEarlyRelease 400)

open Eligibility in
/-- All schemes apply to four hundred days but curfew from four years, which leaves no trace. The
other way round they come to the same. -/
theorem schemes_framed_and_commute_fourHundredDays :
    ∃ c c' answers, fourHundredDays.calculate config {} none = .ok c
      ∧ (applyEach config someone fourHundredDays
          [.curfew .hdced, .curfew .hdced4plus, .removal, .supervision]).runOn c
        = (.ok [(.curfew .hdced, true), (.curfew .hdced4plus, false), (.removal, true),
            (.supervision, true)], c')
      ∧ c'.date? .hdced = some (on 2024 7 12)
      ∧ ((curfew .hdced4plus).applyIn config someone fourHundredDays).runOn c = (.ok false, c)
      ∧ (applyEach config someone fourHundredDays
          [.supervision, .removal, .curfew .hdced4plus, .curfew .hdced]).runOn c = (.ok answers, c')
      ∧ answers.Perm [(.curfew .hdced, true), (.curfew .hdced4plus, false), (.removal, true),
          (.supervision, true)] := by
  have heval : (fun c =>
        let all := (applyEach config someone fourHundredDays
          [.curfew .hdced, .curfew .hdced4plus, .removal, .supervision]).runOn c
        let one := ((curfew .hdced4plus).applyIn config someone fourHundredDays).runOn c
        (all.1, all.2.date? .hdced, one.1))
      <$> fourHundredDays.calculate config {} none
      = .ok (.ok [(.curfew .hdced, true), (.curfew .hdced4plus, false), (.removal, true),
          (.supervision, true)], some (on 2024 7 12), .ok false) := by
    decide +kernel
  obtain ⟨c, hc, heval⟩ := Answered.map_eq_ok.mp heval
  simp only [Prod.mk.injEq] at heval
  obtain ⟨hall, hdate, hnot⟩ := heval
  obtain ⟨hone, horder⟩ := schemes_framed_and_commute config someone fourHundredDays c
  obtain ⟨answers, hanswers, hperm⟩ := horder _
    [.supervision, .removal, .curfew .hdced4plus, .curfew .hdced] (by decide) _ _
    (Prod.ext hall rfl)
  have hkept := (hone (.curfew .hdced4plus)).1.eq_of_ne_true (by rw [hnot]; decide)
  exact ⟨c, _, answers, hc, Prod.ext hall rfl, hdate, Prod.ext hnot hkept, hanswers, hperm.symm⟩

end EnglandAndWales

end Custody
