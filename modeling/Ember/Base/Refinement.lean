import Mathlib.Data.List.Basic
import Mathlib.Order.Basic

/-!
# Timed refinement with silent actions

A machine answers actions with outputs.  Each action happens within a window of
time, and the windows of a run follow one another.  A concrete machine refines an
abstract one when a relation, which may weaken as time passes, is kept by every
action, where some concrete actions are invisible to the abstract machine.
-/

namespace Ember.Base

universe u v w x y

variable {S : Type u} {T : Type v} {A B : Type w} {O : Type x} {τ : Type y}

/-- The outputs of a machine over a run of actions. -/
def outputs (step : S → A → S × List O) : S → List A → List O
  | _, [] => []
  | state, action :: rest => (step state action).2 ++ outputs step (step state action).1 rest

/-- The actions of a run follow one another in time, none before `time`. -/
def InOrder [LE τ] (window : A → τ × τ) : τ → List A → Prop
  | _, [] => True
  | time, action :: rest => time ≤ (window action).1 ∧ InOrder window (window action).2 rest

/-- A relation between the states of two machines that every action keeps.
`visible` is the abstract action a concrete one stands for, if any. -/
structure TimedSimulation [Preorder τ] (step : S → A → S × List O) (spec : T → B → T × List O)
    (window : A → τ × τ) (visible : A → Option B) (related : τ → S → T → Prop) : Prop where
  /-- Related states stay related while nothing happens. -/
  mono : ∀ {early late state abstract}, early ≤ late →
    related early state abstract → related late state abstract
  silent : ∀ {state abstract action}, visible action = none →
    related (window action).1 state abstract →
      (step state action).2 = [] ∧ related (window action).2 (step state action).1 abstract
  matched : ∀ {state abstract action move}, visible action = some move →
    related (window action).1 state abstract →
      (step state action).2 = (spec abstract move).2 ∧
        related (window action).2 (step state action).1 (spec abstract move).1

/-- Related machines give the same outputs: the concrete one on a run, the
abstract one on the visible part of it. -/
theorem TimedSimulation.outputs_eq [Preorder τ] {step : S → A → S × List O}
    {spec : T → B → T × List O} {window : A → τ × τ} {visible : A → Option B}
    {related : τ → S → T → Prop}
    (simulation : TimedSimulation step spec window visible related) {time : τ}
    {actions : List A} (ordered : InOrder window time actions) {state : S} {abstract : T}
    (start : related time state abstract) :
    outputs step state actions = outputs spec abstract (actions.filterMap visible) := by
  induction actions generalizing time state abstract with
  | nil => rfl
  | cons action rest ih =>
      rcases ordered with ⟨later, ordered⟩
      have here := simulation.mono later start
      cases hidden : visible action with
      | none =>
          rcases simulation.silent hidden here with ⟨quiet, kept⟩
          rw [List.filterMap_cons_none hidden, outputs, quiet, ih ordered kept, List.nil_append]
      | some move =>
          rcases simulation.matched hidden here with ⟨same, kept⟩
          rw [List.filterMap_cons_some hidden, outputs, outputs, same, ih ordered kept]

end Ember.Base
