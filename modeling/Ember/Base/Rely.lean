import Ember.Base.Atomicity
import Ember.Base.Threads

/-!
# Rely and guarantee

Pre- and postconditions for programs whose calls are interleaved with those of others.
A program relies on what the others may do to the state between its calls, and
guarantees what it does itself; its conditions are stable under what it relies on.  If
each program guarantees what the others rely on, all postconditions hold together,
however the calls are interleaved.
-/

namespace Ember.Base

universe u v w x y

/-- A condition that the steps of others keep. -/
def Stable {σ : Type x} (rely : σ → σ → Prop) (P : σ → Prop) : Prop :=
  ∀ {state state'}, rely state state' → P state → P state'

/-- How calls are answered, what the others may do to the state, and what a program may
do to it. -/
structure Setting (σ : Type x) (E : Type y) (Op : Type u) (Res : Op → Type w) where
  handle : E → (op : Op) → σ → Res op × σ
  rely : σ → σ → Prop
  guarantee : σ → σ → Prop

namespace Prog

variable {σ : Type x} {E : Type y} {Op : Type u} {Res : Op → Type w} {α β : Type w}

/-- From a state with the first condition, with environments of a kind at its calls, the
program keeps to its guarantee, and the second condition holds where it returns. -/
inductive Triple (setting : Setting σ E Op Res) (admits : E → Prop) :
    (σ → Prop) → Prog Op Res α → (α → σ → Prop) → Prop
  | ret {P : σ → Prop} {value : α} {Q : α → σ → Prop} (stable : Stable setting.rely P)
      (gives : ∀ state, P state → Q value state) : Triple setting admits P (.ret value) Q
  | call {P : σ → Prop} {op : Op} {next : Res op → Prog Op Res α} {Q : α → σ → Prop}
      (between : Res op → σ → Prop) (stable : Stable setting.rely P)
      (takes : ∀ env state, admits env → P state →
        setting.guarantee state (setting.handle env op state).2 ∧
          between (setting.handle env op state).1 (setting.handle env op state).2)
      (later : ∀ answer, Triple setting admits (between answer) (next answer) Q) :
      Triple setting admits P (.call op next) Q

namespace Triple

variable {setting : Setting σ E Op Res} {admits : E → Prop} {P P' : σ → Prop}
  {prog : Prog Op Res α} {Q Q' : α → σ → Prop}

theorem stable (triple : Triple setting admits P prog Q) : Stable setting.rely P := by
  cases triple with
  | ret stable _ => exact stable
  | call _ stable _ _ => exact stable

/-- The rule of consequence. -/
theorem weaken (triple : Triple setting admits P prog Q) (stable : Stable setting.rely P')
    (before : ∀ state, P' state → P state) (after : ∀ value state, Q value state → Q' value state) :
    Triple setting admits P' prog Q' := by
  induction triple generalizing P' with
  | ret _ gives =>
      exact .ret stable fun state holds => after _ state (gives state (before state holds))
  | call between _ takes later ih =>
      exact .call between stable
        (fun env state admitted holds => takes env state admitted (before state holds))
        fun answer => ih answer (later answer).stable (fun _ => id) after

/-- With a fact that is known already. -/
theorem given (triple : Triple setting admits P prog Q) (fact : Prop) :
    Triple setting admits (fun state => P state ∧ fact) prog Q := by
  apply triple.weaken _ (fun _ => And.left) fun _ _ => id
  exact fun step holds => ⟨triple.stable step holds.1, holds.2⟩

/-- With fewer environments. -/
theorem restrict {admits' : E → Prop} (triple : Triple setting admits P prog Q)
    (fewer : ∀ env, admits' env → admits env) : Triple setting admits' P prog Q := by
  induction triple with
  | ret stable gives => exact .ret stable gives
  | call between stable takes _ ih =>
      exact .call between stable
        (fun env state admitted holds => takes env state (fewer env admitted) holds) ih

/-- Nothing has to be shown of a program that is never reached. -/
theorem of_false (never : ∀ state, ¬P state) : Triple setting admits P prog Q := by
  have stable : Stable setting.rely P := fun _ holds => absurd holds (never _)
  induction prog generalizing P with
  | ret value => exact .ret stable fun state holds => absurd holds (never state)
  | call op next ih =>
      exact .call (fun _ _ => False) stable (fun _ state _ holds => absurd holds (never state))
        fun answer => ih answer (fun _ => id) fun _ => id

/-- The rule for one program after the other. -/
theorem bind {f : α → Prog Op Res β} {R : β → σ → Prop} (triple : Triple setting admits P prog Q)
    (rest : ∀ value, Triple setting admits (Q value) (f value) R) :
    Triple setting admits P (prog >>= f) R := by
  induction triple with
  | @ret P value Q stable gives => exact (rest value).weaken stable gives fun _ _ => id
  | call between stable takes _ ih =>
      exact .call between stable takes fun answer => ih answer rest

/-- A single call. -/
theorem perform {op : Op} {Q : Res op → σ → Prop} (stable : Stable setting.rely P)
    (stable' : ∀ answer, Stable setting.rely (Q answer))
    (takes : ∀ env state, admits env → P state →
      setting.guarantee state (setting.handle env op state).2 ∧
        Q (setting.handle env op state).1 (setting.handle env op state).2) :
    Triple setting admits P (Prog.perform op) Q :=
  .call Q stable takes fun answer => .ret (stable' answer) fun _ => id

/-- A program whose calls all keep an invariant returns what it can return when they are
answered in states that have it. -/
theorem of_calls {kind : Op → Prop} {inv : σ → Prop} (stable : Stable setting.rely inv)
    (keeps : ∀ env op state, kind op → inv state →
      setting.guarantee state (setting.handle env op state).2 ∧
        inv (setting.handle env op state).2)
    (calls : prog.Calls kind) :
    Triple setting admits inv prog fun value state =>
      inv state ∧ prog.Returns (Pool.Possible setting.handle inv) value := by
  induction prog with
  | ret value => exact .ret stable fun state holds => ⟨holds, .ret value⟩
  | call op next ih =>
      let given := Pool.Possible setting.handle inv op
      have kept (answer : Res op) : Stable setting.rely fun state => inv state ∧ given answer :=
        fun step holds => ⟨stable step holds.1, holds.2⟩
      apply Triple.call (fun answer state => inv state ∧ given answer) stable
      · intro env state _ holds
        rcases keeps env op state calls.1 holds with ⟨guaranteed, still⟩
        exact ⟨guaranteed, still, env, state, holds, rfl⟩
      · intro answer
        by_cases possible : given answer
        · apply (ih answer (calls.2 answer)).weaken (kept answer) fun state holds => holds.1
          exact fun value state returned => ⟨returned.1, .call possible returned.2⟩
        · exact .of_false fun state holds => possible holds.2

/-- The rule for a program whose actions are programs themselves: if each of them keeps
an invariant and is answered in a possible way, then the program returns what it can
return when its actions are answered in possible ways. -/
theorem expand {Act : Type v} {Out : Act → Type w}
    {impl : (act : Act) → Prog Op Res (Out act)} {allowed : Act → Prop}
    {possible : (act : Act) → Out act → Prop} {inv : σ → Prop}
    (stable : Stable setting.rely inv)
    (each : ∀ act, allowed act →
      Triple setting admits inv (impl act) fun answer state => inv state ∧ possible act answer)
    {spec : Prog Act Out α} (calls : spec.CallsGiven possible allowed) :
    Triple setting admits inv (spec.expand impl)
      fun value state => inv state ∧ spec.Returns possible value := by
  induction spec with
  | ret value => exact .ret stable fun state holds => ⟨holds, .ret value⟩
  | call act next ih =>
      apply (each act calls.1).bind
      intro answer
      have kept : Stable setting.rely fun state => inv state ∧ possible act answer :=
        fun step holds => ⟨stable step holds.1, holds.2⟩
      by_cases given : possible act answer
      · apply (ih answer (calls.2 answer given)).weaken kept fun state holds => holds.1
        exact fun value state returned => ⟨returned.1, .call given returned.2⟩
      · exact .of_false fun state holds => given holds.2

end Triple

end Prog

namespace Pool

variable {σ : Type x} {E : Type y} {Op : Type u} {Res : Op → Type w} {α : Type w}
  {setting : Setting σ E Op Res} {admits : ℕ → E → Prop} {post : ℕ → α → σ → Prop}
  {pool : Pool σ Op Res α}

/-- Each thread has a condition that holds now and leads to its postcondition. -/
def Agrees (setting : Setting σ E Op Res) (admits : ℕ → E → Prop) (post : ℕ → α → σ → Prop)
    (pool : Pool σ Op Res α) : Prop :=
  ∀ (i : ℕ) thread, pool.threads[i]? = some thread →
    ∃ P : σ → Prop, P pool.shared ∧ thread.Triple setting (admits i) P (post i)

theorem Agrees.turn (together : ∀ {state state'}, setting.guarantee state state' →
      setting.rely state state') (agrees : Agrees setting admits post pool) (choice : ℕ × E)
    (admitted : admits choice.1 choice.2) :
    Agrees setting admits post (turn setting.handle pool choice) := by
  rcases turn_cases setting.handle pool choice with same | ⟨op, next, here, made⟩
  · rw [same]
    exact agrees
  · rcases agrees _ _ here with ⟨P, holds, triple⟩
    cases triple with
    | call between stable takes later =>
        rcases takes choice.2 pool.shared admitted holds with ⟨guaranteed, reached⟩
        rw [made]
        intro i thread found
        by_cases own : choice.1 = i
        · subst own
          have inside := (List.getElem?_eq_some_iff.mp here).1
          rw [List.getElem?_set_self inside] at found
          cases found
          exact ⟨_, reached, later _⟩
        · rw [List.getElem?_set_ne own] at found
          rcases agrees i thread found with ⟨P', holds', triple'⟩
          exact ⟨P', triple'.stable (together guaranteed) holds', triple'⟩

/-- If each program guarantees what the others rely on, the postcondition of a program
holds when it has returned. -/
theorem Agrees.run (together : ∀ {state state'}, setting.guarantee state state' →
      setting.rely state state') (agrees : Agrees setting admits post pool)
    {schedule : List (ℕ × E)} (admitted : ∀ turn ∈ schedule, admits turn.1 turn.2) :
    Agrees setting admits post (run setting.handle pool schedule) := by
  induction schedule generalizing pool with
  | nil => exact agrees
  | cons choice schedule ih =>
      rcases List.forall_mem_cons.mp admitted with ⟨first, others⟩
      exact ih (agrees.turn together choice first) others

theorem Agrees.turn_shared (agrees : Agrees setting admits post pool) (choice : ℕ × E)
    (admitted : admits choice.1 choice.2) :
    (Pool.turn setting.handle pool choice).shared = pool.shared ∨
      setting.guarantee pool.shared (Pool.turn setting.handle pool choice).shared := by
  rcases turn_cases setting.handle pool choice with same | ⟨op, next, here, made⟩
  · rw [same]
    exact Or.inl rfl
  · rcases agrees _ _ here with ⟨P, holds, triple⟩
    cases triple with
    | call between stable takes later =>
        rw [made]
        exact Or.inr (takes choice.2 pool.shared admitted holds).1

/-- What the guarantee keeps holds after any run. -/
theorem Agrees.run_shared (together : ∀ {state state'}, setting.guarantee state state' →
      setting.rely state state') {inv : σ → Prop} (kept : Stable setting.guarantee inv)
    (agrees : Agrees setting admits post pool) (holds : inv pool.shared)
    {schedule : List (ℕ × E)} (admitted : ∀ turn ∈ schedule, admits turn.1 turn.2) :
    inv (Pool.run setting.handle pool schedule).shared := by
  induction schedule generalizing pool with
  | nil => exact holds
  | cons choice schedule ih =>
      rcases List.forall_mem_cons.mp admitted with ⟨first, others⟩
      apply ih (agrees.turn together choice first) _ others
      rcases agrees.turn_shared choice first with same | guaranteed
      · rwa [same]
      · exact kept guaranteed holds

theorem Agrees.returned (agrees : Agrees setting admits post pool) {i : ℕ} {value : α}
    (ended : pool.threads[i]? = some (.ret value)) : post i value pool.shared := by
  rcases agrees i _ ended with ⟨P, holds, triple⟩
  cases triple with
  | ret _ gives => exact gives _ holds

end Pool

end Ember.Base
