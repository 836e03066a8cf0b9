import Ember.Base.Atomicity
import Mathlib.Data.Multiset.AddSub
import Mathlib.Logic.Hydra

/-!
# Programs that hold locks

Programs that take shared and exclusive locks around their calls.  When a lock is given to
whom is up to a policy, of which three things are assumed: locks exclude each other as they
should, a free lock is given to somebody who asks for it, and who holds a lock already is
not kept from reading by others that only wait.  Under a simple discipline no program then
waits for good: whoever holds a lock exclusively asks for no other one, and whoever holds
any lock asks for shared ones only.  Without their locks the programs do the same.
-/

namespace Ember.Base

universe u v w x y

/-- How a lock is held: together with others, or alone. -/
inductive LockMode where
  | shared
  | exclusive
  deriving DecidableEq

/-- A call, or taking and giving back a lock. -/
inductive Guarded (L : Type u) (Op : Type v) where
  | acquire (mode : LockMode) (lock : L)
  | release (mode : LockMode) (lock : L)
  | work (op : Op)

namespace Guarded

variable {L : Type u} {Op : Type v} {Res : Op → Type w} {α β : Type w}

/-- The answer to a lock request is that it was granted. -/
abbrev Response (Res : Op → Type w) : Guarded L Op → Type w
  | acquire _ _ | release _ _ => PUnit
  | work op => Res op

/-- A guarded program without its locks. -/
def unlock : (op : Guarded L Op) → Prog Op Res (op.Response Res)
  | acquire _ _ | release _ _ => .ret ⟨⟩
  | work op => Prog.perform op

end Guarded

/-- The locks that a program holds. -/
abbrev Held (L : Type u) := List (LockMode × L)

namespace Prog

variable {L : Type u} [DecidableEq L] {Op : Type v} {Res : Op → Type w} {α β : Type w}

/-- The program keeps the discipline, makes each call under locks that are enough for it,
and returns with certain locks in hand. -/
def DisciplinedTo (enough : Held L → Op → Prop) (atEnd : α → Held L) :
    Held L → Prog (Guarded L Op) (Guarded.Response Res) α → Prop
  | held, ret value => held = atEnd value
  | held, call (.acquire mode lock) next =>
      (∀ hold ∈ held, hold.1 = .shared) ∧ (mode = .exclusive → held = []) ∧
        DisciplinedTo enough atEnd ((mode, lock) :: held) (next ⟨⟩)
  | held, call (.release mode lock) next =>
      (mode, lock) ∈ held ∧ DisciplinedTo enough atEnd (held.erase (mode, lock)) (next ⟨⟩)
  | held, call (.work op) next =>
      enough held op ∧ ∀ answer, DisciplinedTo enough atEnd held (next answer)

/-- The same for programs that return without a lock. -/
abbrev Disciplined (enough : Held L → Op → Prop) :
    Held L → Prog (Guarded L Op) (Guarded.Response Res) α → Prop :=
  DisciplinedTo enough fun _ => []

variable {enough : Held L → Op → Prop}

theorem DisciplinedTo.bind {held : Held L} {prog : Prog (Guarded L Op) (Guarded.Response Res) α}
    {middle : α → Held L} {atEnd : β → Held L}
    (disciplined : prog.DisciplinedTo enough middle held)
    {f : α → Prog (Guarded L Op) (Guarded.Response Res) β}
    (later : ∀ value, (f value).DisciplinedTo enough atEnd (middle value)) :
    (prog >>= f).DisciplinedTo enough atEnd held := by
  induction prog generalizing held with
  | ret value =>
      rw [show held = middle value from disciplined]
      exact later value
  | call op next ih =>
      cases op with
      | acquire mode lock =>
          rcases disciplined with ⟨reading, alone, rest⟩
          exact ⟨reading, alone, ih _ rest⟩
      | release mode lock => exact ⟨disciplined.1, ih _ disciplined.2⟩
      | work op => exact ⟨disciplined.1, fun answer => ih answer (disciplined.2 answer)⟩

/-- A program that returned holds nothing. -/
theorem Disciplined.held_eq_nil {held : Held L}
    {prog : Prog (Guarded L Op) (Guarded.Response Res) α}
    (disciplined : prog.Disciplined enough held) (finished : prog.Finished) : held = [] := by
  cases prog with
  | ret value => exact disciplined
  | call op next => exact finished.elim

/-- Who asks for a lock holds shared locks only, and none if it is to be exclusive. -/
theorem Disciplined.held_of_acquire {held : Held L}
    {prog : Prog (Guarded L Op) (Guarded.Response Res) α}
    (disciplined : prog.Disciplined enough held) {mode : LockMode} {lock : L}
    (asks : prog.nextOp = some (.acquire mode lock)) :
    (∀ hold ∈ held, hold.1 = .shared) ∧ (mode = .exclusive → held = []) := by
  cases prog with
  | ret value => cases asks
  | call op next =>
      cases asks
      exact ⟨disciplined.1, disciplined.2.1⟩

/-- What is made up of disciplined programs is disciplined. -/
theorem Disciplined.expand {Act : Type x} {Out : Act → Type w}
    {impl : (act : Act) → Prog (Guarded L Op) (Guarded.Response Res) (Out act)}
    (each : ∀ act, (impl act).Disciplined enough []) (prog : Prog Act Out α) :
    (prog.expand impl).Disciplined enough [] := by
  induction prog with
  | ret value => rfl
  | call act next ih => exact (each act).bind ih

/-- What is left of a program after a call. -/
def Follows {Op : Type v} {Res : Op → Type w} (rest : Prog Op Res α) : Prog Op Res α → Prop
  | ret _ => False
  | call _ next => ∃ answer, rest = next answer

theorem wellFounded_follows {Op : Type v} {Res : Op → Type w} :
    WellFounded (@Follows α Op Res) := by
  constructor
  intro prog
  induction prog with
  | ret value => exact ⟨_, fun _ follows => follows.elim⟩
  | call op next ih =>
      constructor
      rintro _ ⟨answer, rfl⟩
      exact ih answer

end Prog

/-- A program under way, with the locks it holds. -/
structure LockThread (L : Type u) (Op : Type v) (Res : Op → Type w) (α : Type w) where
  prog : Prog (Guarded L Op) (Guarded.Response Res) α
  held : Held L

/-- Programs that share a state and locks. -/
structure LockPool (σ : Type x) (L : Type u) (Op : Type v) (Res : Op → Type w) (α : Type w) where
  shared : σ
  threads : List (LockThread L Op Res α)

/-- Two ways to hold a lock that go together. -/
def LockMode.Compatible (mode mode' : LockMode) : Prop :=
  mode = .shared ∧ mode' = .shared

theorem LockMode.Compatible.symm {mode mode' : LockMode} (compatible : mode.Compatible mode') :
    mode'.Compatible mode :=
  And.symm compatible

namespace LockThread

variable {L : Type u} {Op : Type v} {Res : Op → Type w} {α : Type w}

/-- The thread asks for the lock. -/
def Asks (mode : LockMode) (lock : L) (thread : LockThread L Op Res α) : Prop :=
  thread.prog.nextOp = some (.acquire mode lock)

/-- Whatever the thread holds of the lock leaves room for another one. -/
def Admits (mode : LockMode) (lock : L) (thread : LockThread L Op Res α) : Prop :=
  ∀ mode', (mode', lock) ∈ thread.held → mode.Compatible mode'

/-- The locks of two threads go together. -/
def Apart (thread other : LockThread L Op Res α) : Prop :=
  ∀ mode lock, (mode, lock) ∈ thread.held → other.Admits mode lock

end LockThread

/-- Which thread is given the lock that it asks for, among the threads before and after. -/
abbrev LockPolicy (L : Type u) (Op : Type v) (Res : Op → Type w) (α : Type w) :=
  List (LockThread L Op Res α) → LockThread L Op Res α → List (LockThread L Op Res α) → Prop

namespace LockPolicy

variable {L : Type u} {Op : Type v} {Res : Op → Type w} {α : Type w}

/-- What is assumed of a policy. -/
structure Laws (grants : LockPolicy L Op Res α) : Prop where
  /-- All that is held of a lock leaves room for whom it is given to. -/
  excludes : ∀ {before thread after mode lock}, grants before thread after →
    thread.Asks mode lock → ∀ other ∈ before ++ thread :: after, other.Admits mode lock
  /-- A lock that nobody holds is given to somebody who asks for it. -/
  serves : ∀ {threads : List (LockThread L Op Res α)} {lock},
    (∃ thread ∈ threads, ∃ mode, thread.Asks mode lock) →
    (∀ thread ∈ threads, ∀ mode, (mode, lock) ∉ thread.held) →
    ∃ before thread after mode, threads = before ++ thread :: after ∧ thread.Asks mode lock ∧
      grants before thread after
  /-- Who holds a lock and asks for a shared one is given it unless somebody holds it
  exclusively: readers are preferred to those who wait. -/
  prefersReaders : ∀ {before thread after lock}, thread.Asks .shared lock → thread.held ≠ [] →
    (∀ other ∈ before ++ thread :: after, (LockMode.exclusive, lock) ∉ other.held) →
    grants before thread after

/-- Locks are given away as soon as there is room. -/
def readersFirst : LockPolicy L Op Res α :=
  fun before thread after => ∀ mode lock, thread.Asks mode lock →
    ∀ other ∈ before ++ thread :: after, other.Admits mode lock

theorem laws_readersFirst : (readersFirst : LockPolicy L Op Res α).Laws where
  excludes given asks := given _ _ asks
  serves := by
    rintro threads lock ⟨thread, member, mode, asks⟩ free
    rcases List.append_of_mem member with ⟨before, after, rfl⟩
    refine ⟨before, thread, after, mode, rfl, asks, fun mode' lock' asks' other there held => ?_⟩
    cases asks.symm.trans asks'
    exact fun holds => absurd holds (free other there held)
  prefersReaders := by
    intro before thread after lock asks _ free mode lock' asks' other there held holds
    cases asks.symm.trans asks'
    cases held with
    | shared => exact ⟨rfl, rfl⟩
    | exclusive => exact absurd holds (free other there)

/-- Nobody is given a shared lock while another one waits to have it exclusively. -/
def writersFirst : LockPolicy L Op Res α :=
  fun before thread after => readersFirst before thread after ∧
    ∀ lock, thread.Asks .shared lock →
      ∀ other ∈ before ++ thread :: after, ¬other.Asks .exclusive lock

end LockPolicy

namespace LockPool

variable {σ : Type x} {E : Type y} {L : Type u} [DecidableEq L] {Op : Type v}
  {Res : Op → Type w} {α : Type w}

/-- One step of one thread.  A lock is taken as the policy allows. -/
inductive Step (grants : LockPolicy L Op Res α) (handle : E → (op : Op) → σ → Res op × σ) :
    LockPool σ L Op Res α → LockPool σ L Op Res α → Prop
  | acquire {state : σ} {before after : List (LockThread L Op Res α)} {mode : LockMode} {lock : L}
      {next : PUnit → Prog (Guarded L Op) (Guarded.Response Res) α} {held : Held L}
      (given : grants before ⟨.call (.acquire mode lock) next, held⟩ after) :
      Step grants handle ⟨state, before ++ ⟨.call (.acquire mode lock) next, held⟩ :: after⟩
        ⟨state, before ++ ⟨next ⟨⟩, (mode, lock) :: held⟩ :: after⟩
  | release {state : σ} {before after : List (LockThread L Op Res α)} {mode : LockMode} {lock : L}
      {next : PUnit → Prog (Guarded L Op) (Guarded.Response Res) α} {held : Held L} :
      Step grants handle ⟨state, before ++ ⟨.call (.release mode lock) next, held⟩ :: after⟩
        ⟨state, before ++ ⟨next ⟨⟩, held.erase (mode, lock)⟩ :: after⟩
  | work {state : σ} {before after : List (LockThread L Op Res α)} {op : Op}
      {next : Res op → Prog (Guarded L Op) (Guarded.Response Res) α} {held : Held L} (env : E) :
      Step grants handle ⟨state, before ++ ⟨.call (.work op) next, held⟩ :: after⟩
        ⟨(handle env op state).2, before ++ ⟨next (handle env op state).1, held⟩ :: after⟩

/-- All threads have returned. -/
def Finished (pool : LockPool σ L Op Res α) : Prop :=
  ∀ thread ∈ pool.threads, thread.prog.Finished

/-- All threads keep the discipline, and what they hold goes together. -/
structure Orderly (enough : Held L → Op → Prop) (pool : LockPool σ L Op Res α) : Prop where
  disciplined : ∀ thread ∈ pool.threads, thread.prog.Disciplined enough thread.held
  apart : pool.threads.Pairwise LockThread.Apart

section Threads

variable {enough : Held L → Op → Prop} {state state' : σ}
  {before after : List (LockThread L Op Res α)} {thread thread' : LockThread L Op Res α}

/-- A thread goes on with at most the locks that it held. -/
theorem Orderly.replace (orderly : Orderly enough ⟨state, before ++ thread :: after⟩)
    (disciplined : thread'.prog.Disciplined enough thread'.held)
    (kept : ∀ {mode lock}, (mode, lock) ∈ thread'.held → (mode, lock) ∈ thread.held ∨
      ∀ other ∈ before ++ after, other.Admits mode lock) :
    Orderly enough (⟨state', before ++ thread' :: after⟩ : LockPool σ L Op Res α) where
  disciplined := Pool.forall_mem_replace orderly.disciplined disciplined
  apart := by
    rcases List.pairwise_append.mp orderly.apart with ⟨-, rest, across⟩
    apply Pool.pairwise_replace orderly.apart
    · intro other member mode lock holds mode' holds'
      rcases kept holds' with old | free
      · exact across other member thread List.mem_cons_self mode lock holds mode' old
      · exact (free other (List.mem_append_left _ member) mode holds).symm
    · intro other member mode lock holds mode' holds'
      rcases kept holds with old | free
      · exact (List.pairwise_cons.mp rest).1 other member mode lock old mode' holds'
      · exact free other (List.mem_append_right _ member) mode' holds'

end Threads

variable {grants : LockPolicy L Op Res α} {handle : E → (op : Op) → σ → Res op × σ}
  {enough : Held L → Op → Prop} {pool pool' : LockPool σ L Op Res α}

theorem Orderly.step (laws : grants.Laws) (orderly : Orderly enough pool)
    (step : Step grants handle pool pool') : Orderly enough pool' := by
  cases step with
  | @acquire state before after mode lock next held given =>
      have here := orderly.disciplined _ (List.mem_append_right _ List.mem_cons_self)
      apply orderly.replace here.2.2
      intro mode' lock' holds
      rcases List.mem_cons.mp holds with new | old
      · cases new
        right
        intro other member
        apply laws.excludes given rfl other
        exact List.mem_append.mpr ((List.mem_append.mp member).imp_right (List.mem_cons_of_mem _))
      · exact Or.inl old
  | @release state before after mode lock next held =>
      have here := orderly.disciplined _ (List.mem_append_right _ List.mem_cons_self)
      exact orderly.replace here.2 fun holds => Or.inl (List.mem_of_mem_erase holds)
  | @work state before after op next held env =>
      have here := orderly.disciplined _ (List.mem_append_right _ List.mem_cons_self)
      exact orderly.replace (here.2 _) Or.inl

/-- What a thread holds goes together with what any other one holds. -/
theorem Orderly.admits (orderly : Orderly enough pool) {i j : ℕ}
    {thread other : LockThread L Op Res α} (different : i ≠ j)
    (here : pool.threads[i]? = some thread) (there : pool.threads[j]? = some other)
    {mode : LockMode} {lock : L} (holds : (mode, lock) ∈ thread.held) :
    other.Admits mode lock := by
  rcases List.getElem?_eq_some_iff.mp here with ⟨inside, rfl⟩
  rcases List.getElem?_eq_some_iff.mp there with ⟨inside', rfl⟩
  have apart := List.pairwise_iff_getElem.mp orderly.apart
  rcases Nat.lt_or_gt_of_ne different with before | after
  · exact apart i j inside inside' before mode lock holds
  · intro mode' holds'
    exact (apart j i inside' inside after mode' lock holds' mode holds).symm

/-- A thread makes its calls under locks that are enough. -/
theorem Orderly.enough_of_work (orderly : Orderly enough pool) {i : ℕ}
    {thread : LockThread L Op Res α} (here : pool.threads[i]? = some thread) {op : Op}
    (next : thread.prog.nextOp = some (.work op)) : enough thread.held op := by
  have disciplined := orderly.disciplined thread (List.mem_of_getElem? here)
  rcases thread with ⟨_ | ⟨op', rest⟩, held⟩
  · cases next
  · cases next
    exact disciplined.1

/-- A thread that does not ask for a lock can go on. -/
theorem step_of_not_asks [Nonempty E] {thread : LockThread L Op Res α}
    (member : thread ∈ pool.threads) (unfinished : ¬thread.prog.Finished)
    (asks : ∀ mode lock, ¬thread.Asks mode lock) : ∃ pool', Step grants handle pool pool' := by
  rcases pool with ⟨state, threads⟩
  rcases List.append_of_mem member with ⟨before, after, rfl⟩
  rcases thread with ⟨_ | ⟨op, next⟩, held⟩
  · exact absurd trivial unfinished
  · cases op with
    | acquire mode lock => exact absurd rfl (asks mode lock)
    | release mode lock => exact ⟨_, .release⟩
    | work op => exact ⟨_, .work (Classical.arbitrary E)⟩

/-- A thread that is given the lock it asks for can go on. -/
theorem step_of_grants {state : σ} {before after : List (LockThread L Op Res α)}
    {thread : LockThread L Op Res α} {mode : LockMode} {lock : L} (asks : thread.Asks mode lock)
    (given : grants before thread after) :
    ∃ pool', Step grants handle ⟨state, before ++ thread :: after⟩ pool' := by
  rcases thread with ⟨_ | ⟨op, next⟩, held⟩
  · cases asks
  · cases asks
    exact ⟨_, .acquire given⟩

/-- If all ask for locks and none is given, nobody can go on. -/
theorem not_step_of_waiting
    (waiting : ∀ before thread after, pool.threads = before ++ thread :: after →
      ∃ mode lock, thread.Asks mode lock ∧ ¬grants before thread after) :
    ¬Step grants handle pool pool' := by
  intro step
  cases step with
  | acquire given =>
      rcases waiting _ _ _ rfl with ⟨-, -, -, refused⟩
      exact refused given
  | release | work =>
      rcases waiting _ _ _ rfl with ⟨mode, lock, asks, -⟩
      cases asks

/-- Somebody who holds a lock exclusively can go on. -/
theorem Orderly.step_of_writing [Nonempty E] (orderly : Orderly enough pool)
    {thread : LockThread L Op Res α} (member : thread ∈ pool.threads) {lock : L}
    (holds : (LockMode.exclusive, lock) ∈ thread.held) :
    ∃ pool', Step grants handle pool pool' := by
  have disciplined := orderly.disciplined thread member
  apply step_of_not_asks member
  · intro finished
    rw [disciplined.held_eq_nil finished] at holds
    cases holds
  · intro mode lock' asks
    cases (disciplined.held_of_acquire asks).1 _ holds

/-- So can somebody who asks for a lock while holding others, if nobody holds one
exclusively. -/
theorem Orderly.step_of_nested (laws : grants.Laws) (orderly : Orderly enough pool)
    (reading : ∀ thread ∈ pool.threads, ∀ lock, (LockMode.exclusive, lock) ∉ thread.held)
    {thread : LockThread L Op Res α} (member : thread ∈ pool.threads) {mode : LockMode} {lock : L}
    (asks : thread.Asks mode lock) (holds : thread.held ≠ []) :
    ∃ pool', Step grants handle pool pool' := by
  have disciplined := orderly.disciplined thread member
  rcases pool with ⟨state, threads⟩
  rcases List.append_of_mem member with ⟨before, after, rfl⟩
  cases mode with
  | shared =>
      exact step_of_grants asks (laws.prefersReaders asks holds fun other there =>
        reading other there lock)
  | exclusive => exact absurd ((disciplined.held_of_acquire asks).2 rfl) holds

/-- Threads that keep the discipline are never all waiting. -/
theorem Orderly.progress [Nonempty E] (laws : grants.Laws)
    (handle : E → (op : Op) → σ → Res op × σ) (orderly : Orderly enough pool) :
    pool.Finished ∨ ∃ pool', Step grants handle pool pool' := by
  by_cases writing : ∃ thread ∈ pool.threads, ∃ lock, (LockMode.exclusive, lock) ∈ thread.held
  · rcases writing with ⟨thread, member, lock, holds⟩
    exact Or.inr (orderly.step_of_writing member holds)
  by_cases going : ∃ thread ∈ pool.threads, ¬thread.prog.Finished ∧
      ∀ mode lock, ¬thread.Asks mode lock
  · rcases going with ⟨thread, member, unfinished, asks⟩
    exact Or.inr (step_of_not_asks member unfinished asks)
  by_cases nested : ∃ thread ∈ pool.threads, thread.held ≠ [] ∧ ∃ mode lock, thread.Asks mode lock
  · rcases nested with ⟨thread, member, holds, mode, lock, asks⟩
    have reading : ∀ thread ∈ pool.threads, ∀ lock, (LockMode.exclusive, lock) ∉ thread.held :=
      fun thread member lock holds => writing ⟨thread, member, lock, holds⟩
    exact Or.inr (orderly.step_of_nested laws reading member asks holds)
  -- All who are not done ask for a lock and hold none, so that all locks are free.
  have asking : ∀ thread ∈ pool.threads, ¬thread.prog.Finished →
      ∃ mode lock, thread.Asks mode lock := by
    intro thread member unfinished
    by_contra silent
    exact going ⟨thread, member, unfinished, fun mode lock asks => silent ⟨mode, lock, asks⟩⟩
  have empty : ∀ thread ∈ pool.threads, thread.held = [] := by
    intro thread member
    by_cases finished : thread.prog.Finished
    · exact (orderly.disciplined thread member).held_eq_nil finished
    · by_contra holds
      exact nested ⟨thread, member, holds, asking thread member finished⟩
  by_cases finished : pool.Finished
  · exact Or.inl finished
  · simp only [Finished, not_forall] at finished
    rcases finished with ⟨thread, member, unfinished⟩
    rcases asking thread member unfinished with ⟨mode, lock, asks⟩
    have free : ∀ thread ∈ pool.threads, ∀ mode, (mode, lock) ∉ thread.held := by
      intro thread member mode holds
      rw [empty thread member] at holds
      cases holds
    rcases laws.serves ⟨thread, member, mode, asks⟩ free with
      ⟨before, served, after, mode', split, asks', given⟩
    rcases pool with ⟨state, threads⟩
    cases split
    exact Or.inr (step_of_grants asks' given)

/-! ## All threads return -/

/-- What is left of the programs. -/
def left (pool : LockPool σ L Op Res α) :
    Multiset (Prog (Guarded L Op) (Guarded.Response Res) α) :=
  (pool.threads.map LockThread.prog : List _)

omit [DecidableEq L] in
theorem left_middle (state : σ) (before after : List (LockThread L Op Res α))
    (thread : LockThread L Op Res α) :
    (⟨state, before ++ thread :: after⟩ : LockPool σ L Op Res α).left =
      {thread.prog} + ((before ++ after).map LockThread.prog : List _) := by
  rw [Multiset.singleton_add, Multiset.cons_coe]
  exact Multiset.coe_eq_coe.mpr (List.perm_middle.map LockThread.prog)

/-- Each step leaves less to be done. -/
theorem Step.left_lt (step : Step grants handle pool pool') :
    Relation.CutExpand Prog.Follows pool'.left pool.left := by
  cases step with
  | acquire | release | work =>
      rw [left_middle, left_middle]
      exact Relation.cutExpand_single_add ⟨_, rfl⟩ _

/-- No run goes on forever. -/
theorem wellFounded_step (grants : LockPolicy L Op Res α)
    (handle : E → (op : Op) → σ → Res op × σ) :
    WellFounded fun pool' pool : LockPool σ L Op Res α => Step grants handle pool pool' :=
  Subrelation.wf Step.left_lt (InvImage.wf left Prog.wellFounded_follows.cutExpand)

theorem Orderly.steps (laws : grants.Laws) (orderly : Orderly enough pool)
    (steps : Relation.ReflTransGen (Step grants handle) pool pool') : Orderly enough pool' := by
  induction steps with
  | refl => exact orderly
  | tail _ step ih => exact ih.step laws step

/-- Threads that keep the discipline can be run until all of them have returned. -/
theorem Orderly.exists_finished [Nonempty E] (laws : grants.Laws)
    (orderly : Orderly enough pool) :
    ∃ final, Relation.ReflTransGen (Step grants handle) pool final ∧ final.Finished := by
  revert orderly
  apply (wellFounded_step grants handle).induction pool
  intro pool ih orderly
  rcases orderly.progress laws handle with finished | ⟨pool', step⟩
  · exact ⟨pool, .refl, finished⟩
  · rcases ih pool' step (orderly.step laws step) with ⟨final, steps, finished⟩
    exact ⟨final, .head step steps, finished⟩

/-! ## Without the locks -/

/-- The pool of the programs without their locks. -/
def unlocked (pool : LockPool σ L Op Res α) : Pool σ Op Res α :=
  ⟨pool.shared, pool.threads.map fun thread => thread.prog.expand Guarded.unlock⟩

/-- A step is a turn of a thread, or cannot be seen without the locks. -/
theorem Step.unlocked (step : Step grants handle pool pool') :
    pool'.unlocked = pool.unlocked ∨
      ∃ i env, pool'.unlocked = Pool.turn handle pool.unlocked (i, env) := by
  cases step with
  | acquire | release =>
      left
      simp only [LockPool.unlocked, List.map_append, List.map_cons]
      rfl
  | @work state before after op next held env =>
      right
      refine ⟨before.length, env, ?_⟩
      have found : (⟨state, before ++ ⟨.call (.work op) next, held⟩ :: after⟩ :
          LockPool σ L Op Res α).unlocked.threads[before.length]? =
            some (.call op fun answer => (next answer).expand Guarded.unlock) := by
        simp [LockPool.unlocked]
        rfl
      rw [Pool.turn_of_call handle found]
      simp [LockPool.unlocked]

/-- A run with locks is a run without them. -/
theorem exists_schedule (steps : Relation.ReflTransGen (Step grants handle) pool pool') :
    ∃ schedule, Pool.run handle pool.unlocked schedule = pool'.unlocked := by
  induction steps with
  | refl => exact ⟨[], rfl⟩
  | @tail middle last _ step ih =>
      rcases ih with ⟨schedule, run⟩
      rcases step.unlocked with same | ⟨i, env, turn⟩
      · exact ⟨schedule, run.trans same.symm⟩
      · refine ⟨schedule ++ [(i, env)], ?_⟩
        rw [Pool.run_append, run, turn]
        rfl

end LockPool

end Ember.Base
