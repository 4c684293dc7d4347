import Custody.Proofs.Answered

/-!
# How a calculation may fail

A step that fails ends the calculation, so the failures of a calculation are those of its steps,
each looked at after the steps before it have answered. `FailsBy fails x` says that every failure
of `x` is among `fails`; it says nothing when `x` has an answer.

* **`failsBy_bind`**: what a step after another may assume is that the first has answered.
* **`FailsBy.mapM`**, **`FailsBy.foldlM`**: a run over a list fails as one of its steps does.
* **`FailsBy.ok_or`**: an answer, or one of the failures.
-/

namespace Custody

variable {α β : Type} {fails : Failure → Prop}

namespace Answered

/-- Every failure of a calculation is one of some. -/
def FailsBy (fails : Failure → Prop) (x : Answered α) : Prop :=
  ∀ e, x = .error e → fails e

/-! ## One step after another -/

@[simp] theorem failsBy_ok (a : α) : FailsBy fails (.ok a) := by
  intro e h
  cases h

@[simp] theorem failsBy_pure (a : α) : FailsBy fails (pure a) :=
  failsBy_ok a

@[simp] theorem failsBy_error (e : Failure) :
    FailsBy fails (.error e : Answered α) ↔ fails e := by
  constructor
  · intro h
    exact h e rfl
  · rintro h _ ⟨⟩
    exact h

@[simp] theorem failsBy_throw (e : Failure) :
    FailsBy fails (throw e : Answered α) ↔ fails e :=
  failsBy_error e

@[simp] theorem failsBy_orFail (found : Option α) (e : Failure) :
    FailsBy fails (orFail found e) ↔ (found = none → fails e) := by
  cases found <;> simp [orFail]

@[simp] theorem failsBy_bind (x : Answered α) (f : α → Answered β) :
    FailsBy fails (x >>= f) ↔ FailsBy fails x ∧ ∀ a, x = .ok a → FailsBy fails (f a) := by
  cases x with
  | error e => simp [bind, Except.bind]
  | ok a => simp [bind, Except.bind]

@[simp] theorem failsBy_map (f : α → β) (x : Answered α) :
    FailsBy fails (f <$> x) ↔ FailsBy fails x := by
  cases x with
  | error e => simp [Functor.map, Except.map]
  | ok a => simp [Functor.map, Except.map]

@[simp] theorem failsBy_ite (c : Prop) [Decidable c] (x y : Answered α) :
    FailsBy fails (if c then x else y) ↔ (c → FailsBy fails x) ∧ (¬c → FailsBy fails y) := by
  split <;> simp [*]

theorem FailsBy.mono {fails' : Failure → Prop} {x : Answered α} (h : FailsBy fails x)
    (hle : ∀ e, fails e → fails' e) : FailsBy fails' x := by
  intro e he
  exact hle e (h e he)

/-- A calculation that may only fail in some ways has an answer or fails in one of them. -/
theorem FailsBy.ok_or {x : Answered α} (h : FailsBy fails x) :
    (∃ a, x = .ok a) ∨ ∃ e, x = .error e ∧ fails e := by
  cases x with
  | ok a => exact .inl ⟨a, rfl⟩
  | error e => exact .inr ⟨e, rfl, h e rfl⟩

/-! ## Lists of steps -/

theorem FailsBy.mapM {f : α → Answered β} {xs : List α} (h : ∀ x ∈ xs, FailsBy fails (f x)) :
    FailsBy fails (xs.mapM f) := by
  induction xs with
  | nil => simp
  | cons x xs ih =>
    rw [List.forall_mem_cons] at h
    rw [List.mapM_cons]
    simp [h.1, ih h.2]

theorem FailsBy.forM {f : α → Answered Unit} {xs : List α} (h : ∀ x ∈ xs, FailsBy fails (f x)) :
    FailsBy fails (xs.forM f) := by
  induction xs with
  | nil => simp
  | cons x xs ih =>
    rw [List.forall_mem_cons] at h
    change FailsBy fails (f x >>= fun _ => xs.forM f)
    rw [failsBy_bind]
    exact ⟨h.1, fun _ _ => ih h.2⟩

/-- A run fails as one of its steps does, each from a state that the steps before it have kept. -/
theorem FailsBy.foldlM {P : β → Prop} {f : β → α → Answered β} {xs : List α} {b : β}
    (hb : P b) (hkeep : ∀ x ∈ xs, ∀ b c, P b → f b x = .ok c → P c)
    (h : ∀ x ∈ xs, ∀ b, P b → FailsBy fails (f b x)) : FailsBy fails (xs.foldlM f b) := by
  induction xs generalizing b with
  | nil => simp
  | cons x xs ih =>
    rw [List.forall_mem_cons] at h hkeep
    rw [List.foldlM_cons, failsBy_bind]
    refine ⟨h.1 b hb, fun c hc => ih (hkeep.1 b c hb hc) hkeep.2 h.2⟩

end Answered

namespace Failure

/-- Whether it is the booking that there is no answer for, not the settings that are at fault. -/
def OfBooking : Failure → Prop
  | .unsupported _ | .breach _ => True
  | _ => False

@[simp] theorem ofBooking_unsupported (cause : Unsupported) : OfBooking (.unsupported cause) :=
  trivial

@[simp] theorem ofBooking_breach (cause : Breach) : OfBooking (.breach cause) :=
  trivial

/-- Whether it is a booking that is not covered. -/
def NotCovered (e : Failure) : Prop := ∃ cause, e = .unsupported cause

@[simp] theorem notCovered_unsupported (cause : Unsupported) : NotCovered (.unsupported cause) :=
  ⟨cause, rfl⟩

theorem ofBooking_iff {e : Failure} :
    e.OfBooking ↔ (∃ cause, e = .unsupported cause) ∨ ∃ cause, e = .breach cause := by
  cases e <;> simp [OfBooking]

end Failure

end Custody
