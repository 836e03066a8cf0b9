import Ember.Base.Interleaving

/-!
# A thread among others

What can be said of one program while others work on the same state.  Its possible
values are those that some answers to its calls lead to, whoever else is at work.
Where every thread keeps to a part of the state of its own, none of them notices the
others: leaving out all turns but those of one thread makes no difference to it.
-/

namespace Ember.Base

universe u v w x y z

namespace Prog

variable {Op : Type u} {Res : Op → Type v} {α β : Type w}

/-- A value that a program returns when its calls are answered in a possible way. -/
inductive Returns (possible : (op : Op) → Res op → Prop) : Prog Op Res α → α → Prop
  | ret (value : α) : Returns possible (.ret value) value
  | call {op : Op} {next : Res op → Prog Op Res α} {answer : Res op} {value : α}
      (given : possible op answer) (rest : Returns possible (next answer) value) :
      Returns possible (.call op next) value

section

variable {possible : (op : Op) → Res op → Prop}

@[simp]
theorem returns_ret_iff {value result : α} :
    Returns possible (.ret value : Prog Op Res α) result ↔ result = value := by
  constructor
  · rintro ⟨⟩
    rfl
  · rintro rfl
    exact .ret result

theorem returns_call_iff {op : Op} {next : Res op → Prog Op Res α} {result : α} :
    Returns possible (.call op next) result ↔
      ∃ answer, possible op answer ∧ Returns possible (next answer) result := by
  constructor
  · rintro ⟨⟩
    exact ⟨_, ‹_›, ‹_›⟩
  · rintro ⟨answer, given, rest⟩
    exact .call given rest

theorem returns_bind_iff {prog : Prog Op Res α} {f : α → Prog Op Res β} {result : β} :
    Returns possible (prog >>= f) result ↔
      ∃ value, Returns possible prog value ∧ Returns possible (f value) result := by
  induction prog with
  | ret value => simp
  | call op next ih =>
      simp only [call_bind, returns_call_iff, ih]
      constructor
      · rintro ⟨answer, given, value, first, second⟩
        exact ⟨value, ⟨answer, given, first⟩, second⟩
      · rintro ⟨value, ⟨answer, given, first⟩, second⟩
        exact ⟨answer, given, value, first, second⟩

theorem Returns.mono {possible' : (op : Op) → Res op → Prop} {prog : Prog Op Res α} {value : α}
    (returns : prog.Returns possible value)
    (weaker : ∀ op answer, possible op answer → possible' op answer) :
    prog.Returns possible' value := by
  induction returns with
  | ret value => exact .ret value
  | call given _ ih => exact .call (weaker _ _ given) ih

end

/-- All calls that a program can make have a property, as long as they are answered in a
possible way. -/
def CallsGiven (possible : (op : Op) → Res op → Prop) (P : Op → Prop) : Prog Op Res α → Prop
  | ret _ => True
  | call op next => P op ∧ ∀ answer, possible op answer → (next answer).CallsGiven possible P

section

variable {possible : (op : Op) → Res op → Prop} {γ δ : Type v} {P : Op → Prop}

theorem Calls.given {prog : Prog Op Res γ} (calls : prog.Calls P) : prog.CallsGiven possible P := by
  induction prog with
  | ret value => trivial
  | call op next ih => exact ⟨calls.1, fun answer _ => ih answer (calls.2 answer)⟩

theorem CallsGiven.always {prog : Prog Op Res γ} (calls : prog.CallsGiven (fun _ _ => True) P) :
    prog.Calls P := by
  induction prog with
  | ret value => trivial
  | call op next ih => exact ⟨calls.1, fun answer => ih answer (calls.2 answer trivial)⟩

/-- What follows a program has to make the right calls only after values that the program
can return. -/
theorem CallsGiven.bind {prog : Prog Op Res γ} {f : γ → Prog Op Res δ}
    (calls : prog.CallsGiven possible P)
    (rest : ∀ value, prog.Returns possible value → (f value).CallsGiven possible P) :
    (prog >>= f).CallsGiven possible P := by
  induction prog with
  | ret value => exact rest value (.ret value)
  | call op next ih =>
      exact ⟨calls.1, fun answer given => ih answer (calls.2 answer given) fun value returns =>
        rest value (.call given returns)⟩

end

variable {σ : Type x} {E : Type y}

/-- The run of a program that is alone on its state, with an environment for each of
its calls. -/
inductive Runs (handle : E → (op : Op) → σ → Res op × σ) :
    Prog Op Res α → σ → List E → α → σ → Prop
  | ret (value : α) (state : σ) : Runs handle (.ret value) state [] value state
  | call {op : Op} {next : Res op → Prog Op Res α} {state final : σ} {env : E} {envs : List E}
      {value : α}
      (rest : Runs handle (next (handle env op state).1) (handle env op state).2 envs value final) :
      Runs handle (.call op next) state (env :: envs) value final

variable {handle : E → (op : Op) → σ → Res op × σ}

theorem Runs.bind {prog : Prog Op Res α} {f : α → Prog Op Res β} {state middle final : σ}
    {envs envs' : List E} {value : α} {result : β}
    (first : Runs handle prog state envs value middle)
    (second : Runs handle (f value) middle envs' result final) :
    Runs handle (prog >>= f) state (envs ++ envs') result final := by
  induction first with
  | ret value state => exact second
  | call rest ih => exact .call (ih second)

/-- A run in which the environment makes no difference. -/
theorem Runs.eq_run {γ : Type v} {P : Op → Prop} {prog : Prog Op Res γ} {state final : σ}
    {envs : List E} {value : γ}
    (steady : ∀ op, P op → ∀ env env' state, handle env op state = handle env' op state)
    (calls : prog.Calls P) (runs : Runs handle prog state envs value final) (env : E) :
    prog.run (handle env) state = (value, final) := by
  induction runs with
  | ret value state => rfl
  | @call op next state final env' envs value rest ih =>
      rw [run_call, steady op calls.1 env env']
      exact ih (calls.2 _)

/-- A run in which the environment does not change. -/
theorem exists_runs_run (env : E) (prog : Prog Op Res α) (state : σ) :
    ∃ envs, Runs handle prog state envs (prog.run (handle env) state).1
      (prog.run (handle env) state).2 := by
  induction prog generalizing state with
  | ret value => exact ⟨[], .ret value state⟩
  | call op next ih =>
      rcases ih (handle env op state).1 (handle env op state).2 with ⟨envs, rest⟩
      exact ⟨env :: envs, .call rest⟩

end Prog

namespace Pool

variable {Op : Type u} {Res : Op → Type v} {α : Type w} {σ : Type x} {E : Type y}
  {handle : E → (op : Op) → σ → Res op × σ}

/-- A program that is the only thread of a pool runs alone. -/
theorem run_of_runs {prog : Prog Op Res α} {state final : σ} {envs : List E} {value : α}
    (runs : Prog.Runs handle prog state envs value final) :
    run handle ⟨state, [prog]⟩ (envs.map fun env => (0, env)) = ⟨final, [.ret value]⟩ := by
  induction runs with
  | ret value state => rfl
  | call rest ih => exact ih

/-- And what the only thread of a pool has come to is a run of it alone. -/
theorem runs_of_run {prog : Prog Op Res α} {state : σ} {schedule : List (ℕ × E)} {value : α}
    (ended : (run handle ⟨state, [prog]⟩ schedule).threads[0]? = some (.ret value)) :
    ∃ envs, Prog.Runs handle prog state envs value
      (run handle ⟨state, [prog]⟩ schedule).shared := by
  induction schedule generalizing prog state with
  | nil =>
      cases ended
      exact ⟨[], .ret value state⟩
  | cons choice schedule ih =>
      rcases choice with ⟨_ | i, env⟩
      · cases prog with
        | ret value => exact ih ended
        | call op next =>
            rcases ih ended with ⟨envs, rest⟩
            exact ⟨env :: envs, .call rest⟩
      · exact ih ended

/-- The answers that a call can get in the states of a kind. -/
def Possible (handle : E → (op : Op) → σ → Res op × σ) (holds : σ → Prop) (op : Op)
    (answer : Res op) : Prop :=
  ∃ env state, holds state ∧ (handle env op state).1 = answer

/-- What a thread has come to, whatever the others did, it can return, provided that the
pool keeps to states of the kind. -/
theorem returns_of_run {holds : σ → Prop} (inv : Pool σ Op Res α → Prop)
    (step : ∀ pool choice, inv pool → inv (turn handle pool choice))
    (inside : ∀ pool, inv pool → holds pool.shared) {pool : Pool σ Op Res α} (start : inv pool)
    {schedule : List (ℕ × E)} {i : ℕ} {prog : Prog Op Res α} {value : α}
    (found : pool.threads[i]? = some prog)
    (ended : (run handle pool schedule).threads[i]? = some (.ret value)) :
    prog.Returns (Possible handle holds) value := by
  induction schedule generalizing pool prog with
  | nil =>
      rw [run_nil, found, Option.some.injEq] at ended
      rw [ended]
      exact .ret value
  | cons choice schedule ih =>
      rw [run_cons] at ended
      have next := step pool choice start
      by_cases own : choice.1 = i
      · rcases turn_cases handle pool choice with same | ⟨op, rest, here, made⟩
        · rw [same] at ended
          exact ih start found ended
        · rw [own, found, Option.some.injEq] at here
          have listed := (List.getElem?_eq_some_iff.mp found).1
          have moved : (turn handle pool choice).threads[i]? =
              some (rest (handle choice.2 op pool.shared).1) := by
            rw [made, own]
            exact List.getElem?_set_self listed
          rw [here]
          exact .call ⟨choice.2, pool.shared, inside pool start, rfl⟩ (ih next moved ended)
      · exact ih next ((turn_other own).trans found) ended

end Pool

/-! ## Calls that keep a property of the state -/

namespace Pool

variable {Op : Type u} {Res : Op → Type v} {α : Type v} {σ : Type x} {E : Type y}
  {handle : E → (op : Op) → σ → Res op × σ} {P : Op → Prop} {holds : σ → Prop}

/-- The state has a property, and the threads make only calls of a kind. -/
structure Safe (holds : σ → Prop) (P : Op → Prop) (pool : Pool σ Op Res α) : Prop where
  shared : holds pool.shared
  calls : ∀ thread ∈ pool.threads, thread.Calls P

theorem Safe.turn (keeps : ∀ env op state, P op → holds state → holds (handle env op state).2)
    (pool : Pool σ Op Res α) (choice : ℕ × E) (safe : pool.Safe holds P) :
    (turn handle pool choice).Safe holds P := by
  rcases turn_split handle pool choice with
    ⟨same, -⟩ | ⟨before, op, next, after, split, -, -, made⟩
  · rw [same]
    exact safe
  · rcases safe with ⟨shared, calls⟩
    rw [split] at calls
    have here := calls (.call op next) (List.mem_append_right before List.mem_cons_self)
    rw [made]
    exact ⟨keeps _ _ _ here.1 shared, forall_mem_replace calls (here.2 _)⟩

/-- What all calls keep, every run keeps. -/
theorem Safe.run (keeps : ∀ env op state, P op → holds state → holds (handle env op state).2)
    {pool : Pool σ Op Res α} (safe : pool.Safe holds P) (schedule : List (ℕ × E)) :
    (run handle pool schedule).Safe holds P :=
  run_preserves (Safe holds P) (Safe.turn keeps) safe schedule

end Pool

/-! ## Threads with a part of the state each -/

/-- The conditions under which a thread notices only the part of the state that its
label stands for.  Its own calls cannot tell states apart that agree on that part, and
the calls of others leave the part alone. -/
structure Unwinding {Op : Type u} {Res : Op → Type v} {σ : Type x} {E : Type y} {L : Type z}
    (handle : E → (op : Op) → σ → Res op × σ) (owns : L → Op → Prop) (agree : L → σ → σ → Prop)
    (apart : L → L → Prop) : Prop where
  consistent : ∀ {label op state state'} (env : E), owns label op → agree label state state' →
    (handle env op state).1 = (handle env op state').1 ∧
      agree label (handle env op state).2 (handle env op state').2
  respects : ∀ {label other op state state'} (env : E), apart label other → owns other op →
    agree label state state' → agree label (handle env op state).2 state'

namespace Pool

variable {Op : Type u} {Res : Op → Type v} {α : Type v} {σ : Type x} {E : Type y} {L : Type z}
  {handle : E → (op : Op) → σ → Res op × σ} {owns : L → Op → Prop} {agree : L → σ → σ → Prop}
  {apart : L → L → Prop} {label : ℕ → L} {i : ℕ}

/-- The turns of one thread, as the only thread of a pool has them. -/
def ownTurns (i : ℕ) (schedule : List (ℕ × E)) : List (ℕ × E) :=
  (schedule.filter fun choice => choice.1 = i).map fun choice => (0, choice.2)

theorem ownTurns_cons_self (env : E) (schedule : List (ℕ × E)) :
    ownTurns i ((i, env) :: schedule) = (0, env) :: ownTurns i schedule := by
  simp [ownTurns]

theorem ownTurns_cons_of_ne {choice : ℕ × E} (other : choice.1 ≠ i) (schedule : List (ℕ × E)) :
    ownTurns i (choice :: schedule) = ownTurns i schedule := by
  simp [ownTurns, other]

/-- Every thread makes calls of its own only. -/
def Labelled (owns : L → Op → Prop) (label : ℕ → L) (pool : Pool σ Op Res α) : Prop :=
  ∀ (i : ℕ) (thread : Prog Op Res α), pool.threads[i]? = some thread →
    thread.Calls (owns (label i))

theorem Labelled.turn {pool : Pool σ Op Res α} (labelled : pool.Labelled owns label)
    (choice : ℕ × E) : (turn handle pool choice).Labelled owns label := by
  intro j thread found
  by_cases own : choice.1 = j
  · rcases turn_cases handle pool choice with same | ⟨op, next, here, made⟩
    · rw [same] at found
      exact labelled j thread found
    · rw [own] at here
      rw [made, own, List.getElem?_set_self (List.getElem?_eq_some_iff.mp here).1,
        Option.some.injEq] at found
      rw [← found]
      exact (labelled j _ here).2 _
  · rw [turn_other own] at found
    exact labelled j thread found

/-- A thread and its part of the state are the same in the pool and alone. -/
structure Alike (agree : L → σ → σ → Prop) (label : L) (i : ℕ) (pool alone : Pool σ Op Res α) :
    Prop where
  thread : pool.threads[i]? = alone.threads[0]?
  shared : agree label pool.shared alone.shared

section

variable (unwinding : Unwinding handle owns agree apart) {pool alone : Pool σ Op Res α}

include unwinding

theorem Alike.turn_self (labelled : pool.Labelled owns label)
    (alike : Alike agree (label i) i pool alone) (env : E) :
    Alike agree (label i) i (turn handle pool (i, env)) (turn handle alone (0, env)) := by
  cases found : pool.threads[i]? with
  | none =>
      have found' : alone.threads[0]? = none := alike.thread.symm.trans found
      simpa only [turn, found, found'] using alike
  | some thread =>
      have found' : alone.threads[0]? = some thread := alike.thread.symm.trans found
      cases thread with
      | ret value => simpa only [turn, found, found'] using alike
      | call op next =>
          have mine := (labelled i _ found).1
          rcases unwinding.consistent env mine alike.shared with ⟨answer, shared⟩
          have made : turn handle pool (i, env) = _ := turn_of_call handle found
          have made' : turn handle alone (0, env) = _ := turn_of_call handle found'
          rw [made, made', answer]
          constructor
          · rw [List.getElem?_set_self (List.getElem?_eq_some_iff.mp found).1,
              List.getElem?_set_self (List.getElem?_eq_some_iff.mp found').1]
          · exact shared

/-- The turns of the others leave a part of the state alone. -/
theorem agree_turn {mine : L} {state : σ} (labelled : pool.Labelled owns label)
    (agrees : agree mine pool.shared state) {choice : ℕ × E}
    (separate : choice.1 < pool.threads.length → apart mine (label choice.1)) :
    agree mine (turn handle pool choice).shared state := by
  rcases turn_cases handle pool choice with same | ⟨op, next, found, made⟩
  · rw [same]
    exact agrees
  · rw [made]
    have inside := (List.getElem?_eq_some_iff.mp found).1
    exact unwinding.respects choice.2 (separate inside) (labelled _ _ found).1 agrees

theorem agree_run {mine : L} {state : σ} (labelled : pool.Labelled owns label)
    (agrees : agree mine pool.shared state)
    (separate : ∀ j < pool.threads.length, apart mine (label j)) (schedule : List (ℕ × E)) :
    agree mine (run handle pool schedule).shared state := by
  induction schedule generalizing pool with
  | nil => exact agrees
  | cons choice schedule ih =>
      apply ih (labelled.turn choice) (agree_turn unwinding labelled agrees (separate choice.1))
      rwa [length_threads_turn]

/-- Without the turns of the others, a thread and its part of the state come to the
same. -/
theorem Alike.run (labelled : pool.Labelled owns label)
    (alike : Alike agree (label i) i pool alone)
    (separate : ∀ j < pool.threads.length, j ≠ i → apart (label i) (label j))
    (schedule : List (ℕ × E)) :
    Alike agree (label i) i (run handle pool schedule)
      (run handle alone (ownTurns i schedule)) := by
  induction schedule generalizing pool alone with
  | nil => exact alike
  | cons choice schedule ih =>
      have separate' : ∀ j < (turn handle pool choice).threads.length, j ≠ i →
          apart (label i) (label j) := by
        rwa [length_threads_turn]
      rcases choice with ⟨j, env⟩
      by_cases own : j = i
      · subst own
        rw [ownTurns_cons_self]
        exact ih (labelled.turn _) (alike.turn_self unwinding labelled env) separate'
      · rw [ownTurns_cons_of_ne own]
        have others : Alike agree (label i) i (turn handle pool (j, env)) alone :=
          ⟨(turn_other own).trans alike.thread,
            agree_turn unwinding labelled alike.shared fun inside => separate j inside own⟩
        exact ih (labelled.turn _) others separate'

end

end Pool

end Ember.Base
