import Mathlib.Control.Basic

/-!
# Computations that return, fail or panic

A fallible routine ends in one of three ways: it returns a value, it returns an
error value to its caller, or it aborts the running task by a panic.  Errors
and panics are kept apart, since only the former can be handled.
-/

namespace Ember.Base

universe u v w

/-- The result of a fallible computation. -/
inductive Outcome (ε : Type u) (α : Type v) where
  | ok (value : α)
  | error (reason : ε)
  | panic
  deriving DecidableEq, Repr

namespace Outcome

variable {ε : Type u} {α β γ : Type v}

/-- Sequencing: both errors and panics end the computation. -/
protected def bind : Outcome ε α → (α → Outcome ε β) → Outcome ε β
  | ok value, next => next value
  | error reason, _ => error reason
  | panic, _ => panic

instance : Monad (Outcome ε) where
  pure := ok
  bind := Outcome.bind

@[simp]
theorem pure_eq_ok (value : α) : (pure value : Outcome ε α) = ok value :=
  rfl

@[simp]
theorem ok_bind (value : α) (next : α → Outcome ε β) :
    (ok value >>= next) = next value :=
  rfl

@[simp]
theorem error_bind (reason : ε) (next : α → Outcome ε β) :
    (error reason >>= next) = error reason :=
  rfl

@[simp]
theorem panic_bind (next : α → Outcome ε β) :
    ((panic : Outcome ε α) >>= next) = panic :=
  rfl

instance : LawfulMonad (Outcome ε) := LawfulMonad.mk' (Outcome ε)
  (by intro α x; cases x <;> rfl)
  (by intros; rfl)
  (by intro α β γ x f g; cases x <;> rfl)

@[simp]
theorem map_ok (f : α → β) (value : α) : f <$> (ok value : Outcome ε α) = ok (f value) :=
  rfl

@[simp]
theorem map_error (f : α → β) (reason : ε) :
    f <$> (error reason : Outcome ε α) = error reason :=
  rfl

@[simp]
theorem map_panic (f : α → β) : f <$> (panic : Outcome ε α) = panic :=
  rfl

theorem bind_eq_ok_iff {x : Outcome ε α} {next : α → Outcome ε β} {result : β} :
    (x >>= next) = ok result ↔ ∃ value, x = ok value ∧ next value = ok result := by
  cases x <;> simp

theorem bind_eq_error_iff {x : Outcome ε α} {next : α → Outcome ε β} {reason : ε} :
    (x >>= next) = error reason ↔
      x = error reason ∨ ∃ value, x = ok value ∧ next value = error reason := by
  cases x <;> simp

theorem bind_eq_panic_iff {x : Outcome ε α} {next : α → Outcome ε β} :
    (x >>= next) = panic ↔ x = panic ∨ ∃ value, x = ok value ∧ next value = panic := by
  cases x <;> simp

theorem map_eq_ok_iff {f : α → β} {x : Outcome ε α} {result : β} :
    f <$> x = ok result ↔ ∃ value, x = ok value ∧ f value = result := by
  cases x <;> simp

/-- If the computation fails, its error has a given property. -/
def FailsWith (P : ε → Prop) (x : Outcome ε α) : Prop :=
  ∀ reason, x = error reason → P reason

section

variable {P : ε → Prop}

theorem failsWith_ok (value : α) : (ok value : Outcome ε α).FailsWith P :=
  nofun

theorem failsWith_panic : (panic : Outcome ε α).FailsWith P :=
  nofun

theorem failsWith_error {reason : ε} (holds : P reason) :
    (error reason : Outcome ε α).FailsWith P := by
  rintro _ ⟨⟩
  exact holds

theorem FailsWith.bind {x : Outcome ε α} {next : α → Outcome ε β} (first : x.FailsWith P)
    (rest : ∀ value, (next value).FailsWith P) : (x >>= next).FailsWith P := by
  cases x with
  | ok value => exact rest value
  | error reason => exact failsWith_error (first reason rfl)
  | panic => exact failsWith_panic

end

/-- The computation was aborted. -/
def isPanic : Outcome ε α → Bool
  | panic => true
  | _ => false

/-- Lift an optional value, with the error its absence stands for. -/
def ofOption (reason : ε) : Option α → Outcome ε α
  | some value => ok value
  | none => error reason

@[simp]
theorem ofOption_some (reason : ε) (value : α) : ofOption reason (some value) = ok value :=
  rfl

@[simp]
theorem ofOption_none (reason : ε) : ofOption reason (none : Option α) = error reason :=
  rfl

theorem ofOption_eq_ok_iff {reason : ε} {x : Option α} {value : α} :
    ofOption reason x = ok value ↔ x = some value := by
  cases x <;> simp

end Outcome

end Ember.Base
