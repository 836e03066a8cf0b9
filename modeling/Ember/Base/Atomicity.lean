import Ember.Base.Threads

/-!
# Programs that implement atomic actions

A program of many calls can implement one action that is taken at once: all of its calls
but one leave the state alone, and that one does what the action does.  In a pool of such
programs nobody can tell the difference.  However their calls are interleaved, the pool
goes abreast of one in which the actions are single calls: at every moment the state is
the same, and a thread that is among the calls of an action is abreast of one that is
about to take this action or has just taken it.
-/

namespace Ember.Base

universe u u' w x y

namespace Prog

variable {Act : Type u} {Out : Act → Type w} {Op : Type u'} {Res : Op → Type w} {α β : Type w}

/-- Each call is replaced by a program. -/
def expand (impl : (act : Act) → Prog Op Res (Out act)) : Prog Act Out α → Prog Op Res α
  | ret value => ret value
  | call act next => impl act >>= fun answer => (next answer).expand impl

section Expand

variable (impl : (act : Act) → Prog Op Res (Out act))

@[simp]
theorem expand_ret (value : α) : (ret value : Prog Act Out α).expand impl = ret value :=
  rfl

@[simp]
theorem expand_perform (act : Act) : (perform act : Prog Act Out _).expand impl = impl act := by
  change impl act >>= ret = impl act
  induction impl act with
  | ret value => rfl
  | call op next ih => exact congrArg (call op) (funext ih)

@[simp]
theorem expand_bind (prog : Prog Act Out α) (f : α → Prog Act Out β) :
    (prog >>= f).expand impl = prog.expand impl >>= fun value => (f value).expand impl := by
  induction prog with
  | ret value => rfl
  | call act next ih =>
      change impl act >>= (fun answer => (next answer >>= f).expand impl) = _
      rw [expand, bind_assoc]
      exact congrArg (impl act >>= ·) (funext ih)

/-- Calls that stand for themselves. -/
theorem expand_expand {embed : (op : Op) → Prog Act Out (Res op)}
    (inverse : ∀ op, (embed op).expand impl = perform op) (prog : Prog Op Res α) :
    (prog.expand embed).expand impl = prog := by
  induction prog with
  | ret value => rfl
  | call op next ih =>
      rw [expand, expand_bind, inverse, perform_bind]
      exact congrArg (call op) (funext ih)

theorem Calls.expand {impl : (act : Act) → Prog Op Res (Out act)} {P : Act → Prop} {Q : Op → Prop}
    (each : ∀ act, P act → (impl act).Calls Q) {prog : Prog Act Out α} (calls : prog.Calls P) :
    (prog.expand impl).Calls Q := by
  induction prog with
  | ret value => trivial
  | call act next ih =>
      exact (each act calls.1).bind fun answer => ih answer (calls.2 answer)

end Expand

variable {σ : Type x} {E : Type y}

/-- A program of calls does what a program of actions does, as long as the state has a
certain property: each call is silent, or it is the moment of the next action. -/
inductive Implements (handle : E → (op : Op) → σ → Res op × σ)
    (take : E → (act : Act) → σ → Out act × σ) (inv : σ → Prop) :
    Prog Op Res α → Prog Act Out α → Prop
  | ret (value : α) : Implements handle take inv (.ret value) (.ret value)
  | silent {op : Op} {next : Res op → Prog Op Res α} {spec : Prog Act Out α}
      (quiet : ∀ env state, inv state → (handle env op state).2 = state)
      (later : ∀ env state, inv state →
        Implements handle take inv (next (handle env op state).1) spec) :
      Implements handle take inv (.call op next) spec
  | point {op : Op} {next : Res op → Prog Op Res α} {act : Act} {rest : Out act → Prog Act Out α}
      (effect : ∀ env state, inv state → (handle env op state).2 = (take env act state).2)
      (keeps : ∀ env state, inv state → inv (handle env op state).2)
      (later : ∀ env state, inv state → Implements handle take inv
        (next (handle env op state).1) (rest (take env act state).1)) :
      Implements handle take inv (.call op next) (.call act rest)

namespace Implements

variable {handle : E → (op : Op) → σ → Res op × σ} {take : E → (act : Act) → σ → Out act × σ}
  {inv : σ → Prop}

/-- What has returned is no longer to take an action. -/
theorem not_ret {act : Act} {value : Out act} :
    ¬ Implements handle take inv (.ret value : Prog Op Res (Out act)) (perform act) := by
  rintro ⟨⟩

end Implements

/-- What is left of a program after some of its calls. -/
inductive Left : Prog Op Res α → Prog Op Res α → Prop
  | all (prog : Prog Op Res α) : Left prog prog
  | after {prog : Prog Op Res α} {op : Op} {next : Res op → Prog Op Res α}
      (left : Left prog (.call op next)) (answer : Res op) : Left prog (next answer)

/-- What is left of a program after some of its calls, one at least. -/
def Begun (prog part : Prog Op Res α) : Prop :=
  ∃ op next answer, Left prog (.call op next) ∧ part = next answer

theorem Begun.left {prog part : Prog Op Res α} (begun : Begun prog part) : Left prog part := by
  rcases begun with ⟨op, next, answer, left, rfl⟩
  exact left.after answer

/-- A program of calls and the program of actions that it stands for, while both run.  The
one is between two actions, as the other is, or it has begun an action that the other has
taken, or has not ended an action that the other is to take.  When the calls of an action
that is taken are made, they have returned its answer. -/
inductive Abreast (impl : (act : Act) → Prog Op Res (Out act)) :
    Prog Op Res α → Prog Act Out α → Prop
  | between (spec : Prog Act Out α) : Abreast impl (spec.expand impl) spec
  | pending {act : Act} {op : Op} {next : Res op → Prog Op Res (Out act)}
      (left : Left (impl act) (.call op next)) (rest : Out act → Prog Act Out α) :
      Abreast impl (.call op next >>= fun answer => (rest answer).expand impl) (.call act rest)
  | taken {act : Act} {part : Prog Op Res (Out act)} (begun : Begun (impl act) part)
      (rest : Out act → Prog Act Out α) {answer : Out act}
      (returned : ∀ value, part = .ret value → value = answer) :
      Abreast impl (part >>= fun answer => (rest answer).expand impl) (rest answer)

section Tracks

variable (handle : E → (op : Op) → σ → Res op × σ) (take : E → (act : Act) → σ → Out act × σ)
  (inv : σ → Prop) (impl : (act : Act) → Prog Op Res (Out act)) (allowed : Act → Prop)

/-- The two go abreast, and will: what is left of the action at hand implements it while
it is to be taken, and its answer once it is taken. -/
inductive Tracks : Prog Op Res α → Prog Act Out α → Prop
  | between {spec : Prog Act Out α} (calls : spec.CallsGiven (Pool.Possible take inv) allowed) :
      Tracks (spec.expand impl) spec
  | pending {act : Act} {part : Prog Op Res (Out act)} (left : Left (impl act) part)
      (implements : Implements handle take inv part (perform act))
      {rest : Out act → Prog Act Out α}
      (calls : ∀ answer, Pool.Possible take inv act answer →
        (rest answer).CallsGiven (Pool.Possible take inv) allowed) :
      Tracks (part >>= fun answer => (rest answer).expand impl) (.call act rest)
  | taken {act : Act} {part : Prog Op Res (Out act)} (begun : Begun (impl act) part)
      {rest : Out act → Prog Act Out α} {answer : Out act}
      (implements : Implements handle take inv part (.ret answer : Prog Act Out _))
      (calls : (rest answer).CallsGiven (Pool.Possible take inv) allowed) :
      Tracks (part >>= fun answer => (rest answer).expand impl) (rest answer)

end Tracks

namespace Tracks

variable {handle : E → (op : Op) → σ → Res op × σ} {take : E → (act : Act) → σ → Out act × σ}
  {inv : σ → Prop} {impl : (act : Act) → Prog Op Res (Out act)} {allowed : Act → Prop}
  {prog : Prog Op Res α} {spec : Prog Act Out α}

theorem abreast (tracks : Tracks handle take inv impl allowed prog spec) :
    Abreast impl prog spec := by
  cases tracks with
  | between calls => exact .between spec
  | @pending act part left implements rest calls =>
      cases part with
      | ret answer => exact absurd implements Implements.not_ret
      | call op next => exact .pending left rest
  | @taken act part begun rest answer implements calls =>
      refine .taken begun rest fun value ended => ?_
      rw [ended] at implements
      cases implements
      rfl

/-- The action at hand goes on by one call, which is silent or the moment of the action. -/
theorem step_pending {act : Act} {part : Prog Op Res (Out act)} (left : Left (impl act) part)
    (implements : Implements handle take inv part (perform act)) {rest : Out act → Prog Act Out α}
    (calls : ∀ answer, Pool.Possible take inv act answer →
      (rest answer).CallsGiven (Pool.Possible take inv) allowed)
    {op : Op} {next : Res op → Prog Op Res α}
    (here : (part >>= fun answer => (rest answer).expand impl) = .call op next)
    (env : E) {state : σ} (holds : inv state) :
    ((handle env op state).2 = state ∧
      Tracks handle take inv impl allowed (next (handle env op state).1) (.call act rest)) ∨
    ((handle env op state).2 = (take env act state).2 ∧ inv (handle env op state).2 ∧
      Tracks handle take inv impl allowed (next (handle env op state).1)
        (rest (take env act state).1)) := by
  cases implements with
  | silent quiet later =>
      cases here
      exact Or.inl ⟨quiet env state holds, .pending (left.after _) (later env state holds) calls⟩
  | point effect keeps later =>
      cases here
      exact Or.inr ⟨effect env state holds, keeps env state holds,
        .taken ⟨_, _, _, left, rfl⟩ (later env state holds) (calls _ ⟨env, state, holds, rfl⟩)⟩

/-- Between two actions, the next one is the action at hand. -/
theorem step_between
    (each : ∀ act, allowed act → Implements handle take inv (impl act) (perform act))
    (calls : spec.CallsGiven (Pool.Possible take inv) allowed)
    {op : Op} {next : Res op → Prog Op Res α} (here : spec.expand impl = .call op next) (env : E)
    {state : σ} (holds : inv state) :
    ((handle env op state).2 = state ∧
      Tracks handle take inv impl allowed (next (handle env op state).1) spec) ∨
    ∃ act rest, spec = .call act rest ∧ (handle env op state).2 = (take env act state).2 ∧
      inv (handle env op state).2 ∧ Tracks handle take inv impl allowed
        (next (handle env op state).1) (rest (take env act state).1) := by
  cases spec with
  | ret value => cases here
  | call act rest =>
      rcases step_pending (.all _) (each act calls.1) calls.2 here env holds with silent | point
      · exact Or.inl silent
      · exact Or.inr ⟨act, rest, rfl, point⟩

/-- A call is silent, or it is the moment of the action that is to be taken next. -/
theorem step (each : ∀ act, allowed act → Implements handle take inv (impl act) (perform act))
    (tracks : Tracks handle take inv impl allowed prog spec)
    {op : Op} {next : Res op → Prog Op Res α} (here : prog = .call op next) (env : E)
    {state : σ} (holds : inv state) :
    ((handle env op state).2 = state ∧
      Tracks handle take inv impl allowed (next (handle env op state).1) spec) ∨
    ∃ act rest, spec = .call act rest ∧ (handle env op state).2 = (take env act state).2 ∧
      inv (handle env op state).2 ∧ Tracks handle take inv impl allowed
        (next (handle env op state).1) (rest (take env act state).1) := by
  cases tracks with
  | between calls => exact step_between each calls here env holds
  | pending left implements calls =>
      rcases step_pending left implements calls here env holds with silent | point
      · exact Or.inl silent
      · exact Or.inr ⟨_, _, rfl, point⟩
  | taken begun implements calls =>
      -- the action is taken, so that its remaining calls are silent
      cases implements with
      | ret => exact step_between each calls here env holds
      | silent quiet later =>
          cases here
          exact Or.inl ⟨quiet env state holds,
            .taken ⟨_, _, _, begun.left, rfl⟩ (later env state holds) calls⟩

/-- What has returned stands for what has returned the same. -/
theorem eq_ret (each : ∀ act, allowed act → Implements handle take inv (impl act) (perform act))
    (tracks : Tracks handle take inv impl allowed prog spec) {value : α}
    (ended : prog = .ret value) : spec = .ret value := by
  have between : ∀ {spec : Prog Act Out α}, spec.CallsGiven (Pool.Possible take inv) allowed →
      spec.expand impl = .ret value → spec = .ret value := by
    intro spec calls returned
    cases spec with
    | ret result =>
        cases returned
        rfl
    | call act rest =>
        have implements := each act calls.1
        rw [expand] at returned
        cases done : impl act with
        | ret answer => exact absurd (done ▸ implements) Implements.not_ret
        | call op next =>
            rw [done] at returned
            cases returned
  cases tracks with
  | between calls => exact between calls ended
  | @pending act part left implements rest calls =>
      cases part with
      | ret answer => exact absurd implements Implements.not_ret
      | call op next => cases ended
  | taken begun implements calls =>
      cases implements with
      | ret => exact between calls ended
      | silent quiet later => cases ended

end Tracks

end Prog

namespace Pool

variable {Act : Type u} {Out : Act → Type w} {Op : Type u'} {Res : Op → Type w} {α : Type w}
  {σ : Type x} {E : Type y}

/-- A pool of programs and a pool of the actions they stand for, at a moment of their runs. -/
structure Abreast (impl : (act : Act) → Prog Op Res (Out act)) (pool : Pool σ Op Res α)
    (spec : Pool σ Act Out α) : Prop where
  shared : pool.shared = spec.shared
  threads : ∀ (i : ℕ) prog, pool.threads[i]? = some prog →
    ∃ actions, spec.threads[i]? = some actions ∧ Prog.Abreast impl prog actions
  returned : ∀ (i : ℕ) value, pool.threads[i]? = some (.ret value) →
    spec.threads[i]? = some (.ret value)

/-- A schedule whose turns are marked where actions are taken. -/
abbrev Marked (E : Type y) : Type y :=
  List ((ℕ × E) × Bool)

/-- The turns in which actions are taken. -/
def Marked.points (marked : Marked E) : List (ℕ × E) :=
  (marked.filter Prod.snd).map Prod.fst

theorem Marked.points_append (first second : Marked E) :
    Marked.points (first ++ second) = Marked.points first ++ Marked.points second := by
  rw [points, List.filter_append, List.map_append]
  rfl

section Turn

variable {handle : E → (op : Op) → σ → Res op × σ} {take : E → (act : Act) → σ → Out act × σ}
  {inv : σ → Prop} {impl : (act : Act) → Prog Op Res (Out act)} {allowed : Act → Prop}
  {pool : Pool σ Op Res α} {spec : Pool σ Act Out α}

/-- The threads go abreast, and will. -/
structure Tracks (handle : E → (op : Op) → σ → Res op × σ)
    (take : E → (act : Act) → σ → Out act × σ) (inv : σ → Prop)
    (impl : (act : Act) → Prog Op Res (Out act)) (allowed : Act → Prop) (pool : Pool σ Op Res α)
    (spec : Pool σ Act Out α) : Prop where
  shared : pool.shared = spec.shared
  holds : inv pool.shared
  threads : ∀ {i : ℕ} {prog}, pool.threads[i]? = some prog → ∃ actions,
    spec.threads[i]? = some actions ∧ Prog.Tracks handle take inv impl allowed prog actions

/-- One of the threads goes on, and so does what it stands for, if it does. -/
theorem Tracks.advance (tracks : pool.Tracks handle take inv impl allowed spec) {i : ℕ} {state : σ}
    (holds : inv state) {prog : Prog Op Res α} {actions : List (Prog Act Out α)}
    (others : ∀ {j : ℕ}, j ≠ i → actions[j]? = spec.threads[j]?)
    (here : ∃ next, actions[i]? = some next ∧
      Prog.Tracks handle take inv impl allowed prog next) :
    Pool.Tracks handle take inv impl allowed ⟨state, pool.threads.set i prog⟩ ⟨state, actions⟩ where
  shared := rfl
  holds := holds
  threads := by
    intro j thread found
    by_cases same : i = j
    · subst same
      rcases here with ⟨next, listed, tracked⟩
      rcases List.getElem?_eq_some_iff.mp found with ⟨inside, there⟩
      rw [List.getElem_set_self] at there
      exact ⟨next, listed, there ▸ tracked⟩
    · rw [List.getElem?_set_ne same] at found
      rw [others (Ne.symm same)]
      exact tracks.threads found

variable (each : ∀ act, allowed act → Prog.Implements handle take inv (impl act) (Prog.perform act))

include each

theorem Tracks.abreast (tracks : pool.Tracks handle take inv impl allowed spec) :
    pool.Abreast impl spec where
  shared := tracks.shared
  threads := by
    intro i prog found
    rcases tracks.threads found with ⟨actions, listed, tracked⟩
    exact ⟨actions, listed, tracked.abreast⟩
  returned := by
    intro i value ended
    rcases tracks.threads ended with ⟨actions, listed, tracked⟩
    rw [listed, tracked.eq_ret each rfl]

/-- A turn is silent, or the turn of an action. -/
theorem Tracks.turn (tracks : pool.Tracks handle take inv impl allowed spec) (choice : ℕ × E) :
    (turn handle pool choice).Tracks handle take inv impl allowed spec ∨
      (turn handle pool choice).Tracks handle take inv impl allowed (turn take spec choice) := by
  rcases choice with ⟨i, env⟩
  rcases turn_cases handle pool (i, env) with same | ⟨op, next, found, made⟩
  · rw [same]
    exact Or.inl tracks
  · rcases tracks.threads found with ⟨actions, listed, tracked⟩
    rw [made]
    rcases tracked.step each rfl env tracks.holds with
      ⟨quiet, later⟩ | ⟨act, rest, rfl, effect, keeps, later⟩
    · left
      dsimp only
      rw [quiet, show spec = ⟨pool.shared, spec.threads⟩ from by rw [tracks.shared]]
      exact tracks.advance tracks.holds (fun _ => rfl) ⟨actions, listed, later⟩
    · right
      have taken : Pool.turn take spec (i, env) = _ := turn_of_call take listed
      rw [taken, ← tracks.shared]
      dsimp only
      rw [← effect]
      apply tracks.advance keeps
      · exact fun other => List.getElem?_set_ne (Ne.symm other)
      · exact ⟨_, List.getElem?_set_self (List.getElem?_eq_some_iff.mp listed).1, later⟩

/-- However the calls are interleaved, the pool goes abreast of the pool of actions, which
are taken at some of the turns of the schedule. -/
theorem Tracks.run (tracks : pool.Tracks handle take inv impl allowed spec)
    (schedule : List (ℕ × E)) :
    ∃ marked : Marked E, marked.map Prod.fst = schedule ∧ ∀ before, before <+: marked →
      (Pool.run handle pool (before.map Prod.fst)).Abreast impl
        (Pool.run take spec (Marked.points before)) := by
  induction schedule generalizing pool spec with
  | nil =>
      refine ⟨[], rfl, fun before initial => ?_⟩
      rw [List.prefix_nil.mp initial]
      exact tracks.abreast each
  | cons choice schedule ih =>
      have step : ∃ point : Bool, (Pool.turn handle pool choice).Tracks handle take inv impl allowed
          (Pool.run take spec (Marked.points [(choice, point)])) := by
        rcases tracks.turn each choice with silent | taken
        · exact ⟨false, silent⟩
        · exact ⟨true, taken⟩
      rcases step with ⟨point, next⟩
      rcases ih next with ⟨marked, all, later⟩
      refine ⟨(choice, point) :: marked, congrArg (choice :: ·) all, fun before begins => ?_⟩
      cases before with
      | nil => exact tracks.abreast each
      | cons head before =>
          rcases List.cons_prefix_cons.mp begins with ⟨rfl, initial⟩
          have outcome := later before initial
          rw [← run_append, ← Marked.points_append] at outcome
          exact outcome

end Turn

end Pool

end Ember.Base
