import Ember.Config.Services
import Ember.Database.Guards

/-!
# No deadlock

All tasks of a server with the locks that their map calls take: connections, cleanup
cycles, and saves that go through both maps.  However they are interleaved, they never
block each other for good, provided that the locks let readers in: `get` and `lrange` lock
a deadline again while they hold it, and would wait for a writer that waits for them.  A
task that is at an entry has the lock for it, and what the tasks do is what they do when
each map call is taken at once.
-/

namespace Ember

open Ember.Base Ember.Database Ember.Resp Dispatcher

variable {L : Type} [DecidableEq L]

/-- A save goes through both maps before it is answered. -/
def capturing (visits : ℕ → Traversal L) : Command → GuardedProg L Unit
  | .save => do
      (visits 0).prog
      (visits 1).prog
  | _ => return ()

/-- The operation of a command with its locks. -/
def guardedOperation (locking : Locking L) (visits : ℕ → Traversal L) (target : Target)
    (c : Command) : Option (GuardedProg L (Outcome String RespType)) :=
  (operation target c).map fun prog => do
    capturing visits c
    locking.guard visits 2 none prog

/-- Commands are executed with their locks. -/
def Service.guarded (locking : Locking L) (visits : ℕ → Traversal L) (target : Target) :
    Service (Guarded L Call) (Guarded.Response Call.Response) :=
  ⟨target, locking.under .now, guardedOperation locking visits target⟩

/-- A task, and the locks that its calls take on their way through the maps. -/
structure LockWorker (L : Type) [DecidableEq L] where
  worker : Worker
  visits : ℕ → Traversal L

/-- A task with its locks. -/
def LockWorker.prog (spill : Spill UInt8) (locking : Locking L) (target : Target)
    (task : LockWorker L) : GuardedProg L (Option (Exit × Connection Client)) :=
  match task.worker with
  | .connection events => do
      return some (← Task.connection spill (.guarded locking task.visits target) events)
  | .cleanup passes => locking.guard task.visits 0 none (Worker.prog spill target (.cleanup passes))

/-! ## The discipline -/

section

variable {locking : Locking L} {visits : ℕ → Traversal L} {target : Target}

theorem disciplined_capturing {enough : Held L → Call → Prop} (c : Command) :
    (capturing visits c).Disciplined enough [] := by
  cases c with
  | save => exact (Guards.disciplined_visit _).bind fun _ => Guards.disciplined_visit _
  | ping | echo | set | get | delete | expire | lpush | rpush | lrange | multi | discard
  | exec => rfl

theorem disciplined_guardedOperation {c : Command} {prog : GuardedProg L (Outcome String RespType)}
    (found : guardedOperation locking visits target c = some prog) :
    prog.Disciplined locking.Enough [] := by
  rcases Option.map_eq_some_iff.mp found with ⟨calls, -, rfl⟩
  exact (disciplined_capturing c).bind fun _ => Guards.disciplined_guard visits calls 2 none

theorem unlock_capturing (c : Command) :
    (capturing visits c).expand Guarded.unlock = (.ret () : DbProg Unit) := by
  cases c with
  | save =>
      rw [capturing, Prog.expand_bind, Guards.unlock_visit]
      exact Guards.unlock_visit _
  | ping | echo | set | get | delete | expire | lpush | rpush | lrange | multi | discard
  | exec => rfl

variable (locking visits target)

/-- Without its locks it is the program of map calls. -/
theorem unlock_guardedOperation (c : Command) :
    (guardedOperation locking visits target c).map (Prog.expand Guarded.unlock) =
      operation target c := by
  rw [guardedOperation, Option.map_map]
  cases operation target c with
  | none => rfl
  | some prog =>
      apply congrArg some
      rw [Function.comp_apply, Prog.expand_bind, unlock_capturing]
      exact Guards.unlock_guard visits prog 2 none

theorem expands_guarded :
    (Service.guarded locking visits target).Expands Guarded.unlock (.maps target) where
  target := rfl
  now := Guards.unlock_under .now
  operation := unlock_guardedOperation locking visits target

theorem expands_asks_guarded :
    (Service.asks target).Expands (Ask.answeredBy (.guarded locking visits target))
      (.guarded locking visits target) := by
  refine @expands_asks _ _ (.guarded locking visits target) fun c => ?_
  exact Option.isSome_map

variable {locking visits target}

theorem disciplined_answeredBy (ask : Ask) :
    (ask.answeredBy (.guarded locking visits target)).Disciplined locking.Enough [] := by
  cases ask with
  | clock => exact Guards.disciplined_under_nil .now
  | execute c =>
      rw [Ask.answeredBy]
      cases found : (Service.guarded locking visits target).operation c with
      | none => rfl
      | some prog => exact disciplined_guardedOperation found

end

namespace LockWorker

variable (spill : Spill UInt8) (locking : Locking L) (target : Target)

theorem disciplined_prog (task : LockWorker L) :
    (task.prog spill locking target).Disciplined locking.Enough [] := by
  rcases task with ⟨events | passes, visits⟩
  · have expanded := Task.expand_handle (expands_asks_guarded locking visits target) events
      (Connection.new spill Client.new)
    have disciplined : (Task.connection spill (.guarded locking visits target) events).Disciplined
        locking.Enough [] := by
      rw [Task.connection, ← expanded]
      exact .expand disciplined_answeredBy _
    exact disciplined.bind fun _ => rfl
  · exact Guards.disciplined_guard visits _ 0 none

theorem unlock_prog (task : LockWorker L) :
    (task.prog spill locking target).expand Guarded.unlock = task.worker.prog spill target := by
  rcases task with ⟨events | passes, visits⟩
  · rw [LockWorker.prog, Prog.expand_bind]
    exact congrArg (· >>= _) (Task.expand_handle (expands_guarded locking visits target) events _)
  · exact Guards.unlock_guard visits _ 0 none

/-- The tasks at their start. -/
def pool (db : DB) (tasks : List (LockWorker L)) :
    LockPool DB L Call Call.Response (Option (Exit × Connection Client)) :=
  ⟨db, tasks.map fun task => ⟨task.prog spill locking target, []⟩⟩

theorem orderly_pool (db : DB) (tasks : List (LockWorker L)) :
    (pool spill locking target db tasks).Orderly locking.Enough where
  disciplined := by
    intro thread member
    rcases List.mem_map.mp member with ⟨task, -, rfl⟩
    exact task.disciplined_prog spill locking target
  apart := by
    rw [List.pairwise_iff_forall_sublist]
    intro thread other both mode lock holds
    rcases List.mem_map.mp (both.subset List.mem_cons_self) with ⟨task, -, rfl⟩
    cases holds

theorem unlocked_pool (db : DB) (tasks : List (LockWorker L)) :
    (pool spill locking target db tasks).unlocked =
      ⟨db, tasks.map fun task => task.worker.prog spill target⟩ := by
  rw [LockPool.unlocked, pool, List.map_map]
  apply congrArg (Pool.mk db)
  exact List.map_congr_left fun task _ => task.unlock_prog spill locking target

end LockWorker

instance : Nonempty Env :=
  ⟨Env.at 0⟩

/-- Whatever the tasks of a server have done so far, they are done or one of them can go
on, and they can be run until all are done.  The maps and the replies are those of a run
in which each map call is taken at once.  A task that is at an entry has the lock for it,
and nobody else has one that does not go together with it. -/
theorem server_never_deadlocks (spill : Spill UInt8) (locking : Locking L)
    {grants : LockPolicy L Call Call.Response (Option (Exit × Connection Client))}
    (laws : grants.Laws) (target : Target) (db : DB) (tasks : List (LockWorker L))
    {pool : LockPool DB L Call Call.Response (Option (Exit × Connection Client))}
    (steps : Relation.ReflTransGen (LockPool.Step grants Call.step)
      (LockWorker.pool spill locking target db tasks) pool) :
    (pool.Finished ∨ ∃ pool', LockPool.Step grants Call.step pool pool') ∧
    (∃ final, Relation.ReflTransGen (LockPool.Step grants Call.step) pool final ∧
      final.Finished) ∧
    (∃ schedule, Pool.run Call.step
      ⟨db, tasks.map fun task => task.worker.prog spill target⟩ schedule = pool.unlocked) ∧
    ∀ (i j : ℕ) thread other op need, i ≠ j → pool.threads[i]? = some thread →
      pool.threads[j]? = some other → thread.prog.nextOp = some (.work op) →
        locking.needs op = some need → need ∈ thread.held ∧ other.Admits need.1 need.2 := by
  have orderly := (LockWorker.orderly_pool spill locking target db tasks).steps laws steps
  refine ⟨orderly.progress laws Call.step, orderly.exists_finished laws, ?_, ?_⟩
  · rcases LockPool.exists_schedule steps with ⟨schedule, run⟩
    exact ⟨schedule, LockWorker.unlocked_pool spill locking target db tasks ▸ run⟩
  · intro i j thread other op need different here there next needs
    have holds : need ∈ thread.held := orderly.enough_of_work here next need needs
    exact ⟨holds, orderly.admits different here there holds⟩

/-- A cleanup that counts the keys of a shard, beside a connection. -/
theorem server_never_deadlocks_cleanup :
    let locking := Locking.ofShards fun _ _ => 0
    let visits := fun _ => Traversal.iter ⟨.expirations, 0⟩ []
    let tasks : List (LockWorker Shard) :=
      [⟨.connection [.bytes (utf8Bytes "GET a\r\n")], visits⟩, ⟨.cleanup 1, visits⟩]
    let start := LockWorker.pool .atFlush locking ⟨true, 24⟩ ⟨∅, ∅⟩ tasks
    ∃ pool, Relation.ReflTransGen (LockPool.Step .readersFirst Call.step) start pool ∧
      pool.threads.map LockThread.held = [[], [(.shared, ⟨.expirations, 0⟩)]] ∧
      ∃ final, Relation.ReflTransGen (LockPool.Step .readersFirst Call.step) pool final ∧
        final.Finished := by
  intro locking visits tasks start
  let connection : LockThread Shard Call Call.Response (Option (Exit × Connection Client)) :=
    ⟨LockWorker.prog .atFlush locking ⟨true, 24⟩
      ⟨.connection [.bytes (utf8Bytes "GET a\r\n")], visits⟩, []⟩
  have clock : LockPool.Step .readersFirst Call.step start _ :=
    @LockPool.Step.work _ _ _ _ _ _ _ .readersFirst Call.step ⟨∅, ∅⟩ [connection] [] .now _ []
      (Env.at 0)
  have steps := (Relation.ReflTransGen.single clock).tail
    (@LockPool.Step.acquire _ _ _ _ _ _ _ .readersFirst Call.step ⟨∅, ∅⟩ [connection] [] .shared
      ⟨.expirations, 0⟩ _ [] (by
        intro mode lock asks thread member held holds
        rcases List.mem_cons.mp member with rfl | last
        · cases holds
        · cases List.mem_singleton.mp last
          cases holds))
  exact ⟨_, steps, rfl, (server_never_deadlocks .atFlush locking LockPolicy.laws_readersFirst
    ⟨true, 24⟩ ⟨∅, ∅⟩ tasks steps).2.1⟩

/-- If nobody were given a shared lock while another one waits to have it exclusively, a
client that reads a key with a deadline and one that sets the key could block each other:
the reader holds the lock of the deadline when the writer comes, and asks for it again. -/
theorem deadlock_of_writersFirst (shard : MapName → String → ℕ) (visits : ℕ → Traversal Shard)
    {db : DB} {key : String} {deadline : Instant}
    (timed : db.expirations.lookup key = some deadline) (value : RedisObject) :
    let reader : GuardedProg Shard Unit := (Locking.ofShards shard).guard visits 0 none do
      let _ ← DB.get key
    let writer : GuardedProg Shard Unit := (Locking.ofShards shard).guard visits 0 none do
      let _ ← perform .now
      let _ ← DB.set key value none
    ∃ pool : LockPool DB Shard Call Call.Response Unit,
      Relation.ReflTransGen (LockPool.Step .writersFirst Call.step)
        ⟨db, [⟨reader, []⟩, ⟨writer, []⟩]⟩ pool ∧
      ¬pool.Finished ∧ ∀ pool', ¬LockPool.Step .writersFirst Call.step pool pool' := by
  intro reader writer
  let lock : Shard := ⟨.expirations, shard .expirations key⟩
  obtain ⟨next, reading, again⟩ : ∃ next, reader =
      .call (.acquire .shared lock) (fun _ => .call (.work (.expirationsGet key)) next) ∧
        (next (some deadline)).nextOp = some (.acquire .shared lock) :=
    ⟨_, rfl, rfl⟩
  obtain ⟨rest, writing, waits⟩ : ∃ rest, writer = .call (.work .now) rest ∧
      ∀ now, (rest now).nextOp = some (.acquire .exclusive lock) :=
    ⟨_, rfl, fun _ => rfl⟩
  have locked : LockPool.Step .writersFirst Call.step ⟨db, [⟨reader, []⟩, ⟨writer, []⟩]⟩
      ⟨db, [⟨.call (.work (.expirationsGet key)) next, [(.shared, lock)]⟩, ⟨writer, []⟩]⟩ := by
    rw [reading, writing]
    refine @LockPool.Step.acquire _ _ _ _ _ _ _ _ Call.step db [] [_] .shared lock _ [] ⟨?_, ?_⟩
    · rintro mode lock' - other member mode' holds
      rcases List.mem_pair.mp member with rfl | rfl <;> cases holds
    · rintro lock' - other member asks
      rcases List.mem_pair.mp member with rfl | rfl <;> cases asks
  have found : LockPool.Step .writersFirst Call.step
      ⟨db, [⟨.call (.work (.expirationsGet key)) next, [(.shared, lock)]⟩, ⟨writer, []⟩]⟩
      ⟨db, [⟨next (some deadline), [(.shared, lock)]⟩, ⟨writer, []⟩]⟩ := by
    rw [← timed]
    exact @LockPool.Step.work _ _ _ _ _ _ _ _ Call.step db [] [_] (.expirationsGet key) next _
      (Env.at 0)
  have comes : LockPool.Step .writersFirst Call.step
      ⟨db, [⟨next (some deadline), [(.shared, lock)]⟩, ⟨writer, []⟩]⟩
      ⟨db, [⟨next (some deadline), [(.shared, lock)]⟩, ⟨rest 0, []⟩]⟩ := by
    rw [writing]
    exact @LockPool.Step.work _ _ _ _ _ _ _ _ Call.step db [_] [] .now rest [] (Env.at 0)
  refine ⟨_, ((Relation.ReflTransGen.single locked).tail found).tail comes, ?_, fun pool' =>
    LockPool.not_step_of_waiting ?_⟩
  · intro finished
    have ended := finished _ List.mem_cons_self
    dsimp only at ended
    generalize next (some deadline) = prog at again ended
    cases prog with
    | ret value => cases again
    | call op next => exact ended
  · intro before thread after split
    rcases before with _ | ⟨first, _ | ⟨second, before⟩⟩
    · cases split
      refine ⟨.shared, lock, again, fun given => ?_⟩
      exact given.2 lock again _ (List.mem_cons_of_mem _ List.mem_cons_self) (waits 0)
    · cases split
      refine ⟨.exclusive, lock, waits 0, fun given => ?_⟩
      cases (given.1 .exclusive lock (waits 0) _ List.mem_cons_self .shared List.mem_cons_self).1
    · simp at split

end Ember
