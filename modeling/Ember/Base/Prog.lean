import Mathlib.Data.Nat.Notation
import Mathlib.Data.List.Basic

/-!
# Programs of atomic calls

A task that works on a shared state is a tree: it stops with a value, or makes
one atomic call and continues with the answer.  A handler gives the calls their
meaning.  The same tree is run alone, or as one thread of a pool whose calls are
interleaved by a schedule.
-/

namespace Ember.Base

universe u v w x y z

/-- A program over the calls `Op`, where `op` is answered by a `Res op`. -/
inductive Prog (Op : Type u) (Res : Op → Type v) (α : Type w) : Type (max u v w)
  | ret (value : α)
  | call (op : Op) (next : Res op → Prog Op Res α)

namespace Prog

variable {Op : Type u} {Res : Op → Type v} {α β γ : Type w} {σ : Type x}

/-- Run a program and hand its value to another one. -/
protected def bind : Prog Op Res α → (α → Prog Op Res β) → Prog Op Res β
  | ret value, f => f value
  | call op next, f => call op fun answer => (next answer).bind f

instance : Monad (Prog Op Res) where
  pure := ret
  bind := Prog.bind

@[simp]
theorem pure_eq_ret (value : α) : (pure value : Prog Op Res α) = ret value :=
  rfl

@[simp]
theorem ret_bind (value : α) (f : α → Prog Op Res β) : (ret value >>= f) = f value :=
  rfl

@[simp]
theorem call_bind (op : Op) (next : Res op → Prog Op Res α) (f : α → Prog Op Res β) :
    (call op next >>= f) = call op fun answer => next answer >>= f :=
  rfl

theorem bind_assoc (prog : Prog Op Res α) (f : α → Prog Op Res β) (g : β → Prog Op Res γ) :
    prog >>= f >>= g = prog >>= fun value => f value >>= g := by
  induction prog with
  | ret value => rfl
  | call op next ih => exact congrArg (call op) (funext ih)

instance : LawfulMonad (Prog Op Res) :=
  LawfulMonad.mk' _
    (by
      intro α prog
      change prog >>= ret = prog
      induction prog with
      | ret value => rfl
      | call op next ih => exact congrArg (call op) (funext ih))
    (fun _ _ => rfl) bind_assoc

/-- The program that makes one call and returns the answer. -/
def perform {Op : Type u} {Res : Op → Type v} (op : Op) : Prog Op Res (Res op) :=
  call op ret

@[simp]
theorem perform_bind {Op : Type u} {Res : Op → Type w} (op : Op)
    (f : Res op → Prog Op Res β) : (perform op >>= f) = call op f :=
  rfl

/-- The run of a program that is alone on its state. -/
def run (handle : (op : Op) → σ → Res op × σ) : Prog Op Res α → σ → α × σ
  | ret value, state => (value, state)
  | call op next, state =>
      let (answer, state) := handle op state
      (next answer).run handle state

variable {handle : (op : Op) → σ → Res op × σ}

@[simp]
theorem run_ret (value : α) (state : σ) : (ret value).run handle state = (value, state) :=
  rfl

@[simp]
theorem run_call (op : Op) (next : Res op → Prog Op Res α) (state : σ) :
    (call op next).run handle state =
      (next (handle op state).1).run handle (handle op state).2 :=
  rfl

@[simp]
theorem run_bind (prog : Prog Op Res α) (f : α → Prog Op Res β) (state : σ) :
    (prog >>= f).run handle state =
      (f (prog.run handle state).1).run handle (prog.run handle state).2 := by
  induction prog generalizing state with
  | ret value => rfl
  | call op next ih => exact ih _ _

/-- The program has returned. -/
def Finished : Prog Op Res α → Prop
  | ret _ => True
  | call _ _ => False

instance : (prog : Prog Op Res α) → Decidable prog.Finished
  | ret _ => isTrue trivial
  | call _ _ => isFalse id

@[simp]
theorem finished_ret (value : α) : (ret value : Prog Op Res α).Finished :=
  trivial

@[simp]
theorem not_finished_call (op : Op) (next : Res op → Prog Op Res α) :
    ¬(call op next).Finished :=
  id

/-- The next call of a program that has not returned. -/
def nextOp : Prog Op Res α → Option Op
  | ret _ => none
  | call op _ => some op

@[simp]
theorem nextOp_ret (value : α) : (ret value : Prog Op Res α).nextOp = none :=
  rfl

@[simp]
theorem nextOp_call (op : Op) (next : Res op → Prog Op Res α) :
    (call op next).nextOp = some op :=
  rfl

/-- A property of a program and of all that is left of it after calls with
possible answers. -/
def Always (possible : (op : Op) → Res op → Prop) (P : Prog Op Res α → Prop) :
    Prog Op Res α → Prop
  | ret value => P (ret value)
  | call op next =>
      P (call op next) ∧ ∀ answer, possible op answer → (next answer).Always possible P

variable {possible : (op : Op) → Res op → Prop} {P : Prog Op Res α → Prop}

theorem Always.here {prog : Prog Op Res α} (always : prog.Always possible P) : P prog := by
  cases prog with
  | ret value => exact always
  | call op next => exact always.1

end Prog

/-- Threads over one shared state. -/
structure Pool (σ : Type x) (Op : Type u) (Res : Op → Type v) (α : Type w) where
  shared : σ
  threads : List (Prog Op Res α)

namespace Pool

variable {σ : Type x} {Op : Type u} {Res : Op → Type v} {α : Type w} {E : Type y}

/-- One turn of a schedule: the chosen thread makes its next call, answered in
the environment the turn carries.  The turn of a thread that has returned, or
that does not exist, does nothing. -/
def turn (handle : E → (op : Op) → σ → Res op × σ) (pool : Pool σ Op Res α)
    (choice : ℕ × E) : Pool σ Op Res α :=
  match pool.threads[choice.1]? with
  | some (.call op next) =>
      let (answer, shared) := handle choice.2 op pool.shared
      ⟨shared, pool.threads.set choice.1 (next answer)⟩
  | _ => pool

/-- The run of a pool under a schedule. -/
def run (handle : E → (op : Op) → σ → Res op × σ) (pool : Pool σ Op Res α)
    (schedule : List (ℕ × E)) : Pool σ Op Res α :=
  schedule.foldl (turn handle) pool

/-- Every thread has returned. -/
def Finished (pool : Pool σ Op Res α) : Prop :=
  ∀ thread ∈ pool.threads, thread.Finished

instance (pool : Pool σ Op Res α) : Decidable pool.Finished :=
  inferInstanceAs (Decidable (∀ thread ∈ pool.threads, thread.Finished))

variable {handle : E → (op : Op) → σ → Res op × σ} {pool : Pool σ Op Res α}

@[simp]
theorem run_nil : run handle pool [] = pool :=
  rfl

@[simp]
theorem run_cons (choice : ℕ × E) (schedule : List (ℕ × E)) :
    run handle pool (choice :: schedule) = run handle (turn handle pool choice) schedule :=
  rfl

theorem run_append (first second : List (ℕ × E)) :
    run handle pool (first ++ second) = run handle (run handle pool first) second :=
  List.foldl_append

/-- A state that a run comes through. -/
def Visits (handle : E → (op : Op) → σ → Res op × σ) (pool : Pool σ Op Res α)
    (schedule : List (ℕ × E)) (state : σ) : Prop :=
  ∃ before, before <+: schedule ∧ (run handle pool before).shared = state

theorem visits_start {schedule : List (ℕ × E)} : Visits handle pool schedule pool.shared :=
  ⟨[], List.nil_prefix, rfl⟩

theorem Visits.cons {choice : ℕ × E} {schedule : List (ℕ × E)} {state : σ}
    (later : Visits handle (turn handle pool choice) schedule state) :
    Visits handle pool (choice :: schedule) state := by
  rcases later with ⟨before, front, reached⟩
  exact ⟨choice :: before, (List.prefix_cons_inj choice).mpr front, reached⟩

theorem Visits.append_right {first : List (ℕ × E)} {state : σ}
    (early : Visits handle pool first state) (second : List (ℕ × E)) :
    Visits handle pool (first ++ second) state := by
  rcases early with ⟨before, front, reached⟩
  exact ⟨before, front.trans (List.prefix_append first second), reached⟩

theorem Visits.append_left (first : List (ℕ × E)) {second : List (ℕ × E)} {state : σ}
    (late : Visits handle (run handle pool first) second state) :
    Visits handle pool (first ++ second) state := by
  rcases late with ⟨before, front, reached⟩
  refine ⟨first ++ before, (List.prefix_append_right_inj first).mpr front, ?_⟩
  rw [run_append, reached]

/-- A turn makes the call its thread is at, or does nothing. -/
theorem turn_cases (handle : E → (op : Op) → σ → Res op × σ) (pool : Pool σ Op Res α)
    (choice : ℕ × E) :
    turn handle pool choice = pool ∨
      ∃ op next, pool.threads[choice.1]? = some (.call op next) ∧
        turn handle pool choice =
          ⟨(handle choice.2 op pool.shared).2,
            pool.threads.set choice.1 (next (handle choice.2 op pool.shared).1)⟩ := by
  unfold turn
  split
  next op next found => exact Or.inr ⟨op, next, found, rfl⟩
  next => exact Or.inl rfl

theorem turn_of_call (handle : E → (op : Op) → σ → Res op × σ) {choice : ℕ × E} {op : Op}
    {next : Res op → Prog Op Res α} (found : pool.threads[choice.1]? = some (.call op next)) :
    turn handle pool choice =
      ⟨(handle choice.2 op pool.shared).2,
        pool.threads.set choice.1 (next (handle choice.2 op pool.shared).1)⟩ := by
  simp [turn, found]

/-- The chosen thread has no call to make, or the turn makes it; the other threads
stay as they are. -/
theorem turn_split (handle : E → (op : Op) → σ → Res op × σ) (pool : Pool σ Op Res α)
    (choice : ℕ × E) :
    turn handle pool choice = pool ∧ pool.threads[choice.1]?.bind Prog.nextOp = none ∨
      ∃ before op next after, pool.threads = before ++ .call op next :: after ∧
        before.length = choice.1 ∧ pool.threads[choice.1]?.bind Prog.nextOp = some op ∧
          turn handle pool choice =
            ⟨(handle choice.2 op pool.shared).2,
              before ++ next (handle choice.2 op pool.shared).1 :: after⟩ := by
  cases found : pool.threads[choice.1]? with
  | none => exact Or.inl ⟨by simp [turn, found], rfl⟩
  | some thread =>
      cases thread with
      | ret value => exact Or.inl ⟨by simp [turn, found], rfl⟩
      | call op next =>
          right
          rcases List.getElem?_eq_some_iff.mp found with ⟨inside, here⟩
          refine ⟨pool.threads.take choice.1, op, next, pool.threads.drop (choice.1 + 1),
            ?_, ?_, rfl, ?_⟩
          · rw [← here, List.getElem_cons_drop, List.take_append_drop]
          · exact List.length_take_of_le (Nat.le_of_lt inside)
          · rw [turn_of_call handle found, List.set_eq_take_append_cons_drop, if_pos inside]

/-- A turn of threads that are known by their stages: one of them leaves its stage. -/
theorem turn_stages {S : Type z} {thread : S → Prog Op Res α} {stages : List S}
    (handle : E → (op : Op) → σ → Res op × σ) (threads : pool.threads = stages.map thread)
    (choice : ℕ × E) :
    turn handle pool choice = pool ∧ pool.threads[choice.1]?.bind Prog.nextOp = none ∨
      ∃ before stage after op next, stages = before ++ stage :: after ∧
        thread stage = .call op next ∧
        before.length = choice.1 ∧ pool.threads[choice.1]?.bind Prog.nextOp = some op ∧
          turn handle pool choice =
            ⟨(handle choice.2 op pool.shared).2,
              before.map thread ++ next (handle choice.2 op pool.shared).1 ::
                after.map thread⟩ := by
  rcases turn_split handle pool choice with
    idle | ⟨before, op, next, after, split, position, call, made⟩
  · exact Or.inl idle
  · right
    rcases List.map_eq_append_iff.mp (threads.symm.trans split) with ⟨before, rest, rfl, rfl, cut⟩
    rcases List.map_eq_cons_iff.mp cut with ⟨stage, after, rfl, here, rfl⟩
    rw [List.length_map] at position
    exact ⟨before, stage, after, op, next, rfl, here, position, call, made⟩

/-- What holds of all members of a list and of the new one still holds after one of
them is replaced. -/
theorem forall_mem_replace {β : Type w} {P : β → Prop} {before after : List β} {old new : β}
    (all : ∀ x ∈ before ++ old :: after, P x) (holds : P new) :
    ∀ x ∈ before ++ new :: after, P x := by
  intro x member
  rcases List.mem_append.mp member with earlier | here
  · exact all x (List.mem_append_left _ earlier)
  · rcases List.mem_cons.mp here with rfl | later
    · exact holds
    · exact all x (List.mem_append_right _ (List.mem_cons_of_mem _ later))

/-- The same for what holds between any two of them. -/
theorem pairwise_replace {β : Type w} {R : β → β → Prop} {before after : List β} {old new : β}
    (all : (before ++ old :: after).Pairwise R) (earlier : ∀ x ∈ before, R x new)
    (later : ∀ x ∈ after, R new x) : (before ++ new :: after).Pairwise R := by
  rcases List.pairwise_append.mp all with ⟨front, rest, across⟩
  refine List.pairwise_append.mpr
    ⟨front, List.pairwise_cons.mpr ⟨later, (List.pairwise_cons.mp rest).2⟩, ?_⟩
  intro x member y behind
  rcases List.mem_cons.mp behind with rfl | after
  · exact earlier x member
  · exact across x member y (List.mem_cons_of_mem _ after)

/-- What every allowed turn preserves, every schedule of allowed turns preserves. -/
theorem run_invariant {allowed : ℕ × E → Prop} (inv : Pool σ Op Res α → Prop)
    (step : ∀ pool choice, allowed choice → inv pool → inv (turn handle pool choice))
    {schedule : List (ℕ × E)} (turns : ∀ choice ∈ schedule, allowed choice)
    (start : inv pool) : inv (run handle pool schedule) := by
  induction schedule generalizing pool with
  | nil => exact start
  | cons choice schedule ih =>
      have now := turns choice List.mem_cons_self
      exact ih (fun later member => turns later (List.mem_cons_of_mem _ member))
        (step pool choice now start)

/-- What every turn preserves, every schedule preserves. -/
theorem run_preserves (inv : Pool σ Op Res α → Prop)
    (step : ∀ pool choice, inv pool → inv (turn handle pool choice)) (start : inv pool)
    (schedule : List (ℕ × E)) : inv (run handle pool schedule) :=
  have turns : ∀ choice ∈ schedule, True := fun _ _ => trivial
  run_invariant inv (fun pool choice _ => step pool choice) turns start

theorem length_threads_turn (choice : ℕ × E) :
    (turn handle pool choice).threads.length = pool.threads.length := by
  rcases turn_cases handle pool choice with same | ⟨op, next, -, made⟩
  · rw [same]
  · simp [made]

theorem turn_other {choice : ℕ × E} {i : ℕ} (other : choice.1 ≠ i) :
    (turn handle pool choice).threads[i]? = pool.threads[i]? := by
  rcases turn_cases handle pool choice with same | ⟨op, next, -, made⟩
  · rw [same]
  · rw [made]
    exact List.getElem?_set_ne other

/-- One thread can always be run until it returns. -/
theorem exists_thread_finished (handle : E → (op : Op) → σ → Res op × σ) (env : E) (i : ℕ)
    (pool : Pool σ Op Res α) (inside : i < pool.threads.length) :
    ∃ turns : ℕ, let final := run handle pool (List.replicate turns (i, env))
      (∃ value, final.threads[i]? = some (.ret value)) ∧
        final.threads.length = pool.threads.length ∧
          ∀ j, j ≠ i → final.threads[j]? = pool.threads[j]? := by
  have found : pool.threads[i]? = some pool.threads[i] := List.getElem?_eq_getElem inside
  generalize pool.threads[i] = prog at found
  induction prog generalizing pool with
  | ret value => exact ⟨0, ⟨value, found⟩, rfl, fun _ _ => rfl⟩
  | call op next ih =>
      have made : turn handle pool (i, env) = _ := turn_of_call handle found
      obtain ⟨turns, returned, size, others⟩ := ih _ (turn handle pool (i, env))
        (by rwa [length_threads_turn]) (by rw [made]; exact List.getElem?_set_self inside)
      refine ⟨turns + 1, returned, size.trans (length_threads_turn _), fun j other => ?_⟩
      exact (others j other).trans (turn_other other.symm)

/-- Every pool has a schedule, whatever environment each thread has its turns in,
under which all of its threads return. -/
theorem exists_finished (handle : E → (op : Op) → σ → Res op × σ) (env : ℕ → E)
    (pool : Pool σ Op Res α) :
    ∃ turns : List ℕ, (run handle pool (turns.map fun i => (i, env i))).Finished := by
  have upTo : ∀ n ≤ pool.threads.length, ∃ turns : List ℕ,
      let final := run handle pool (turns.map fun i => (i, env i))
      final.threads.length = pool.threads.length ∧
        ∀ j < n, ∃ value, final.threads[j]? = some (.ret value) := by
    intro n
    induction n with
    | zero => exact fun _ => ⟨[], rfl, by simp⟩
    | succ n ih =>
        intro bound
        rcases ih (by omega) with ⟨turns, size, returned⟩
        obtain ⟨more, last, size', others⟩ := exists_thread_finished handle (env n) n
          (run handle pool (turns.map fun i => (i, env i))) (by omega)
        refine ⟨turns ++ List.replicate more n, ?_⟩
        rw [List.map_append, List.map_replicate, run_append]
        constructor
        · rw [size', size]
        · intro j below
          rcases Nat.lt_succ_iff_lt_or_eq.mp below with earlier | rfl
          · rw [others j (by omega)]
            exact returned j earlier
          · exact last
  rcases upTo pool.threads.length (Nat.le_refl _) with ⟨turns, size, returned⟩
  refine ⟨turns, fun thread member => ?_⟩
  rcases List.mem_iff_getElem.mp member with ⟨j, inside, rfl⟩
  rcases returned j (size ▸ inside) with ⟨value, found⟩
  rw [List.getElem?_eq_getElem inside, Option.some.injEq] at found
  rw [found]
  exact Prog.finished_ret value

end Pool

end Ember.Base
