import Ember.Base.Prog

/-!
# Independent programs

Two calls are independent when they can be exchanged without a difference in their
answers or in the state.  Two programs whose calls are independent of each other do
not notice one another: however they are interleaved, the result is that of running
one after the other, in either order.

Calls on different parts of a state are independent.  A part is a pair of functions,
one that looks at it and one that replaces it.
-/

namespace Ember.Base

universe u v x y z

section Calls

variable {σ : Type x} {α β : Type v} {γ δ : Type z}

/-- Two actions on a state can be exchanged. -/
structure Commutes (act : σ → α × σ) (act' : σ → β × σ) : Prop where
  state : ∀ s, (act' (act s).2).2 = (act (act' s).2).2
  first : ∀ s, (act (act' s).2).1 = (act s).1
  second : ∀ s, (act' (act s).2).1 = (act' s).1

theorem Commutes.symm {act : σ → α × σ} {act' : σ → β × σ} (commutes : Commutes act act') :
    Commutes act' act :=
  ⟨fun s => (commutes.state s).symm, commutes.second, commutes.first⟩

/-- An action that looks at one part of the state and replaces it. -/
def ActsOn (get : σ → γ) (put : σ → γ → σ) (act : σ → α × σ) : Prop :=
  ∃ f : γ → α × γ, ∀ s, act s = ((f (get s)).1, put s (f (get s)).2)

theorem ActsOn.of_read {get : σ → γ} {put : σ → γ → σ} {act : σ → α × σ}
    (kept : ∀ s, put s (get s) = s) (answer : γ → α) (reads : ∀ s, act s = (answer (get s), s)) :
    ActsOn get put act := by
  exists fun part => (answer part, part)
  intro s
  rw [reads, kept]

/-- Actions on different parts of the state can be exchanged. -/
theorem ActsOn.commutes {get : σ → γ} {put : σ → γ → σ} {get' : σ → δ} {put' : σ → δ → σ}
    {act : σ → α × σ} {act' : σ → β × σ} (on : ActsOn get put act) (on' : ActsOn get' put' act')
    (unseen : ∀ s part, get (put' s part) = get s) (unseen' : ∀ s part, get' (put s part) = get' s)
    (exchange : ∀ s part part', put' (put s part) part' = put (put' s part') part) :
    Commutes act act' := by
  rcases on with ⟨f, acts⟩
  rcases on' with ⟨f', acts'⟩
  constructor
  · intro s
    rw [acts', acts, acts, acts', unseen, unseen', exchange]
  · intro s
    rw [acts, acts', acts, unseen]
  · intro s
    rw [acts', acts, acts', unseen']

end Calls

section Registers

variable {α : Type v} {initial current current' : α} {before after : List (Option α)}
  {record record' : Option α}

/-- A register of several writers and what each of them wrote there last: the register
has its initial content, and nobody has written, or the last write of somebody. -/
def LastWritten (initial current : α) (records : List (Option α)) : Prop :=
  (current = initial ∧ ∀ record ∈ records, record = none) ∨ some current ∈ records

/-- A writer that replaces the content and its record, or leaves both. -/
theorem LastWritten.move (holds : LastWritten initial current (before ++ record :: after))
    (moved : record' = record ∧ current' = current ∨ record' = some current') :
    LastWritten initial current' (before ++ record' :: after) := by
  rcases moved with ⟨rfl, rfl⟩ | rfl
  · exact holds
  · exact Or.inr (List.mem_append_right before List.mem_cons_self)

theorem LastWritten.mem_of_ne_none {records : List (Option α)}
    (holds : LastWritten initial current records) (member : record ∈ records)
    (wrote : record ≠ none) : some current ∈ records := by
  rcases holds with ⟨-, silent⟩ | written
  · exact absurd (silent record member) wrote
  · exact written

end Registers

namespace Prog

variable {Op : Type u} {Res : Op → Type v} {α β : Type v} {σ : Type x} {P Q : Op → Prop}

/-- All calls that a program can make have a property. -/
def Calls (P : Op → Prop) : Prog Op Res α → Prop
  | ret _ => True
  | call op next => P op ∧ ∀ answer, (next answer).Calls P

theorem Calls.mono {prog : Prog Op Res α} (calls : prog.Calls P) (weaker : ∀ op, P op → Q op) :
    prog.Calls Q := by
  induction prog with
  | ret value => exact trivial
  | call op next ih => exact ⟨weaker op calls.1, fun answer => ih answer (calls.2 answer)⟩

theorem Calls.bind {prog : Prog Op Res α} {f : α → Prog Op Res β} (calls : prog.Calls P)
    (rest : ∀ value, (f value).Calls P) : (prog >>= f).Calls P := by
  induction prog with
  | ret value => exact rest value
  | call op next ih => exact ⟨calls.1, fun answer => ih answer (calls.2 answer)⟩

variable {handle handle' : (op : Op) → σ → Res op × σ}

/-- An action that is independent of all calls of a program is independent of the
program. -/
theorem Calls.commutes {act : σ → β × σ} (commutes : ∀ op, P op → Commutes (handle op) act)
    {prog : Prog Op Res α} (calls : prog.Calls P) : Commutes (prog.run handle) act := by
  induction prog with
  | ret value => exact ⟨fun _ => rfl, fun _ => rfl, fun _ => rfl⟩
  | call op next ih =>
      have here := commutes op calls.1
      have later := fun answer => ih answer (calls.2 answer)
      constructor
      · intro s
        rw [run_call, (later _).state, here.state, run_call, here.first]
      · intro s
        rw [run_call, run_call, here.first, ← here.state, (later _).first]
      · intro s
        rw [run_call, (later _).second, here.second]

/-- Programs whose calls are independent of each other are independent. -/
theorem commutes_run (commutes : ∀ op op', P op → Q op' → Commutes (handle op) (handle' op'))
    {first : Prog Op Res α} {second : Prog Op Res β} (calls : first.Calls P)
    (calls' : second.Calls Q) : Commutes (first.run handle) (second.run handle') := by
  apply calls.commutes
  intro op holds
  exact (calls'.commutes fun op' holds' => (commutes op op' holds holds').symm).symm

end Prog

namespace Pool

variable {Op : Type u} {Res : Op → Type v} {α : Type v} {σ : Type x} {E : Type y}
  {P Q : Op → Prop} {handle : E → (op : Op) → σ → Res op × σ} {env : ℕ → E}

/-- What two threads would come to if they were run one after the other: their values
and the state. -/
def outcome (handle : E → (op : Op) → σ → Res op × σ) (env : ℕ → E) (state : σ)
    (first second : Prog Op Res α) : α × α × σ :=
  ((first.run (handle (env 0)) state).1, (second.run (handle (env 1)) state).1,
    (second.run (handle (env 1)) (first.run (handle (env 0)) state).2).2)

/-- Two threads with independent calls, which would come to a given result. -/
def Independent (handle : E → (op : Op) → σ → Res op × σ) (env : ℕ → E) (P Q : Op → Prop)
    (result : α × α × σ) (pool : Pool σ Op Res α) : Prop :=
  ∃ first second, pool.threads = [first, second] ∧ first.Calls P ∧ second.Calls Q ∧
    outcome handle env pool.shared first second = result

theorem Independent.turn {result : α × α × σ}
    (commutes : ∀ op op', P op → Q op' → Commutes (handle (env 0) op) (handle (env 1) op'))
    (pool : Pool σ Op Res α) (choice : ℕ × E) (own : choice.2 = env choice.1)
    (independent : Independent handle env P Q result pool) :
    Independent handle env P Q result (pool.turn handle choice) := by
  rcases independent with ⟨first, second, threads, calls, calls', rfl⟩
  rcases turn_cases handle pool choice with same | ⟨op, next, found, made⟩
  · rw [same]
    exact ⟨first, second, threads, calls, calls', rfl⟩
  · rcases choice with ⟨i, e⟩
    obtain rfl : e = env i := own
    rw [made]
    rw [threads] at found ⊢
    match i, found with
    | 0, found =>
        cases found
        have moved := calls'.commutes fun op' holds => (commutes op op' calls.1 holds).symm
        refine ⟨_, second, rfl, calls.2 _, calls', ?_⟩
        simp only [outcome, Prog.run_call, moved.first]
    | 1, found =>
        cases found
        have moved := calls.commutes fun op' holds => commutes op' op holds calls'.1
        refine ⟨first, _, rfl, calls, calls'.2 _, ?_⟩
        simp only [outcome, Prog.run_call, moved.first, moved.state, moved.second]
    | i + 2, found => cases found

/-- Two threads with independent calls end as if the first one had run before the
second one. -/
theorem run_of_independent
    (commutes : ∀ op op', P op → Q op' → Commutes (handle (env 0) op) (handle (env 1) op'))
    {state : σ} {first second : Prog Op Res α} (calls : first.Calls P) (calls' : second.Calls Q)
    {turns : List ℕ}
    (finished : (run handle ⟨state, [first, second]⟩ (turns.map fun i => (i, env i))).Finished) :
    run handle ⟨state, [first, second]⟩ (turns.map fun i => (i, env i)) =
      ⟨(second.run (handle (env 1)) (first.run (handle (env 0)) state).2).2,
        [.ret (first.run (handle (env 0)) state).1,
          .ret (second.run (handle (env 1)) state).1]⟩ := by
  have start : Independent handle env P Q (outcome handle env state first second)
      (⟨state, [first, second]⟩ : Pool σ Op Res α) :=
    ⟨first, second, rfl, calls, calls', rfl⟩
  have own : ∀ choice ∈ turns.map fun i => (i, env i), choice.2 = env choice.1 := by
    intro choice member
    rcases List.mem_map.mp member with ⟨i, -, rfl⟩
    rfl
  have stop := run_invariant _ (Independent.turn commutes) own start
  generalize run handle ⟨state, [first, second]⟩ _ = final at finished stop ⊢
  rcases final with ⟨state', threads⟩
  rcases stop with ⟨first', second', rfl, -, -, same⟩
  cases first' with
  | call op next => exact (finished _ (List.mem_cons_self ..)).elim
  | ret value =>
      cases second' with
      | call op next => exact (finished _ (List.mem_cons_of_mem _ (List.mem_cons_self ..))).elim
      | ret value' =>
          simp only [outcome, Prog.run_ret, Prod.mk.injEq] at same
          rw [same.1, same.2.1, same.2.2]

end Pool

end Ember.Base
