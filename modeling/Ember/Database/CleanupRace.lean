import Ember.Database.Core

/-!
# SET against the cleanup paths

GET, LRANGE and the cleanup cycle look at a deadline, and remove the key from
both maps by two later calls.  SET is itself a removal followed by one or two
insertions.  All of their calls may be interleaved.  The value and the deadline
of a SET survive exactly when, at its first call, no cleanup stands between its
check of the key and a removal that would hit them.
-/

namespace Ember.Database

open Ember.Base

universe u

/-- The call adds or replaces an entry. -/
def Call.Inserts : Call → Prop
  | dataInsert _ _ | dataGetMut _ _ | expirationsInsert _ _ => True
  | _ => False

/-- The answers a call can get while the clock has not passed `limit`. -/
def Call.Possible (limit : Instant) : (op : Call) → op.Response → Prop
  | now, answer => answer ≤ limit
  | _, _ => True

/-- The answers a call can get while, in addition, `key` has no deadline before
`limit`. -/
def Call.Live (key : String) (limit : Instant) : (op : Call) → op.Response → Prop
  | now, answer => answer ≤ limit
  | expirationsGet key', answer =>
      key' = key → ∀ deadline, answer = some deadline → limit ≤ deadline
  | isExpired key', answer => key' = key → answer = false
  | _, _ => True

namespace CleanupRace

variable {α β : Type}

/-- The next call of a task does not remove `key` from either map. -/
def Calm (key : String) (prog : DbProg α) : Prop :=
  prog.nextOp ≠ some (.dataRemove key) ∧ prog.nextOp ≠ some (.expirationsRemove key)

/-- A task that inserts nothing and that comes to remove `key` only by a check
which found its deadline before `limit`. -/
def Checks (key : String) (limit : Instant) : DbProg α → Prop
  | .ret _ => True
  | .call op next => ¬op.Inserts ∧
      (op ≠ .dataRemove key → ∀ answer, op.Live key limit answer → Calm key (next answer))

/-- A task checks before it removes, as long as the clock has not passed `limit`. -/
def Careful (key : String) (limit : Instant) (prog : DbProg α) : Prop :=
  prog.Always (Call.Possible limit) (Checks key limit)

section Tasks

variable {key : String} {limit : Instant}

theorem calm_ret (value : α) : Calm key (.ret value : DbProg α) :=
  ⟨nofun, nofun⟩

theorem calm_call {op : Call} {next : op.Response → DbProg α} (data : op ≠ .dataRemove key)
    (deadline : op ≠ .expirationsRemove key) : Calm key (.call op next) :=
  ⟨fun same => data (Option.some.inj same), fun same => deadline (Option.some.inj same)⟩

theorem careful_call {op : Call} {next : op.Response → DbProg α} (keeps : ¬op.Inserts)
    (calm : op ≠ .dataRemove key → ∀ answer, op.Live key limit answer → Calm key (next answer))
    (rest : ∀ answer, op.Possible limit answer → Careful key limit (next answer)) :
    Careful key limit (.call op next) :=
  ⟨⟨keeps, calm⟩, rest⟩

/-- The two removals of a cleanup, and what follows them. -/
theorem careful_removal (key' : String) {rest : DbProg α} (careful : Careful key limit rest)
    (calm : Calm key rest) :
    Careful key limit (.call (.dataRemove key') fun _ =>
      .call (.expirationsRemove key') fun _ => rest) := by
  refine careful_call id (fun other _ _ => calm_call nofun ?_) fun _ _ =>
    careful_call id (fun _ _ _ => calm) fun _ _ => careful
  rintro ⟨⟩
  exact other rfl

theorem calm_removal {key' : String} (other : key' ≠ key) {next : Unit → DbProg α} :
    Calm key (.call (.dataRemove key') next) :=
  calm_call (fun same => other (Call.dataRemove.inj same)) nofun

theorem careful_lazyExpiration (key' : String) {f : Bool → DbProg α}
    (careful : ∀ answer, Careful key limit (f answer)) (calm : ∀ answer, Calm key (f answer)) :
    Careful key limit (DB.lazyExpiration key' >>= f) := by
  refine careful_call id (fun _ answer _ => ?_) fun answer _ => ?_
  · cases answer with
    | none => exact calm false
    | some deadline => exact calm_call nofun nofun
  · cases answer with
    | none => exact careful false
    | some deadline =>
        refine careful_call id (fun _ passed live => ?_) fun passed _ => ?_
        · cases passed with
          | false => exact calm false
          | true => exact calm_removal fun same => nomatch live same
        · cases passed with
          | false => exact careful false
          | true => exact careful_removal key' (careful true) (calm true)

theorem calm_lazyExpiration (key' : String) {f : Bool → DbProg α} :
    Calm key (DB.lazyExpiration key' >>= f) :=
  calm_call nofun nofun

/-- The readers: the check, then one look at the value. -/
theorem careful_reader (key' : String) {f : Bool → DbProg α}
    {g : Option RedisObject → DbProg α} (removed : ∃ value, f true = .ret value)
    (kept : f false = perform (.dataGet key') >>= g)
    (returns : ∀ found, ∃ value, g found = .ret value) :
    Careful key limit (DB.lazyExpiration key' >>= f) := by
  rcases removed with ⟨value, removed⟩
  refine careful_lazyExpiration key' (fun answer => ?_) fun answer => ?_
  · cases answer with
    | true => exact removed ▸ trivial
    | false =>
        rw [kept, Prog.perform_bind]
        refine careful_call id (fun _ found _ => ?_) fun found _ => ?_
        · rcases returns found with ⟨value, returned⟩
          exact returned ▸ calm_ret value
        · rcases returns found with ⟨value, returned⟩
          exact returned ▸ trivial
  · cases answer with
    | true => exact removed ▸ calm_ret value
    | false => exact kept ▸ calm_call nofun nofun

theorem careful_reapSample {now : Instant} (early : now ≤ limit) (keys : List String) (count : ℕ)
    {f : ℕ → DbProg α} (careful : ∀ answer, Careful key limit (f answer))
    (calm : ∀ answer, Calm key (f answer)) :
    Careful key limit (DB.reapSample now keys count >>= f) ∧
      Calm key (DB.reapSample now keys count >>= f) := by
  induction keys generalizing count with
  | nil => exact ⟨careful count, calm count⟩
  | cons key' rest ih =>
      simp only [DB.reapSample, Prog.perform_bind, Prog.call_bind]
      refine ⟨careful_call id (fun _ answer live => ?_) fun answer _ => ?_, calm_call nofun nofun⟩
      · cases answer with
        | none => exact (ih count).2
        | some deadline =>
            dsimp only
            split
            next passed =>
              apply calm_removal
              intro same
              have after : limit ≤ deadline := live same deadline rfl
              exact (passed.trans_le early).not_ge after
            next => exact (ih count).2
      · cases answer with
        | none => exact (ih count).1
        | some deadline =>
            dsimp only
            split
            next => exact careful_removal key' (ih (count + 1)).1 (ih (count + 1)).2
            next => exact (ih count).1

theorem careful_activeExpirationPass {f : Bool → DbProg α}
    (careful : ∀ answer, Careful key limit (f answer)) (calm : ∀ answer, Calm key (f answer)) :
    Careful key limit (DB.activeExpirationPass >>= f) := by
  simp only [DB.activeExpirationPass, Prog.perform_bind, Prog.call_bind]
  refine careful_call id (fun _ _ _ => calm_call nofun nofun) fun now early => ?_
  refine careful_call id (fun _ total _ => ?_) fun total _ => ?_
  · split
    · exact calm false
    · exact calm_call nofun nofun
  · split
    · exact careful false
    · refine careful_call id (fun _ _ _ => calm_call nofun nofun) fun skip _ => ?_
      refine careful_call id (fun _ order _ => ?_) fun order _ => ?_
      · change Calm key (DB.reapSample now _ 0 >>= _ >>= f)
        rw [Prog.bind_assoc]
        exact (careful_reapSample early _ 0 (fun _ => careful _) fun _ => calm _).2
      · change Careful key limit (DB.reapSample now _ 0 >>= _ >>= f)
        rw [Prog.bind_assoc]
        exact (careful_reapSample early _ 0 (fun _ => careful _) fun _ => calm _).1

theorem careful_activeExpirationCycle (fuel : ℕ) {f : Bool → DbProg α}
    (careful : ∀ answer, Careful key limit (f answer)) (calm : ∀ answer, Calm key (f answer)) :
    Careful key limit (DB.activeExpirationCycle fuel >>= f) ∧
      Calm key (DB.activeExpirationCycle fuel >>= f) := by
  induction fuel with
  | zero => exact ⟨careful false, calm false⟩
  | succ fuel ih =>
      rw [DB.activeExpirationCycle, Prog.bind_assoc]
      refine ⟨careful_activeExpirationPass (fun again => ?_) fun again => ?_, calm_call nofun nofun⟩
      · cases again with
        | true => exact ih.1
        | false => exact careful true
      · cases again with
        | true => exact ih.2
        | false => exact calm true

end Tasks

/-! ## The calls of a task that inserts nothing -/

section Calls

variable {op : Call} {env : Env} {db : DB} {key : String} {limit : Instant}

theorem lookup_data_step (keeps : ¬op.Inserts) (spares : op ≠ .dataRemove key) :
    (op.step env db).2.data.lookup key = db.data.lookup key := by
  cases op with
  | dataInsert | dataGetMut | expirationsInsert => exact absurd trivial keeps
  | dataRemove key' => exact Finmap.lookup_erase_ne fun same => spares (by rw [same])
  | _ => rfl

theorem lookup_expirations_step (keeps : ¬op.Inserts) (spares : op ≠ .expirationsRemove key) :
    (op.step env db).2.expirations.lookup key = db.expirations.lookup key := by
  cases op with
  | dataInsert | dataGetMut | expirationsInsert => exact absurd trivial keeps
  | expirationsRemove key' => exact Finmap.lookup_erase_ne fun same => spares (by rw [same])
  | _ => rfl

theorem lookup_data_step_none (keeps : ¬op.Inserts) (missing : db.data.lookup key = none) :
    (op.step env db).2.data.lookup key = none := by
  by_cases removal : op = .dataRemove key
  · rw [removal]
    exact Finmap.lookup_erase key db.data
  · rw [lookup_data_step keeps removal, missing]

theorem lookup_expirations_step_none (keeps : ¬op.Inserts)
    (missing : db.expirations.lookup key = none) :
    (op.step env db).2.expirations.lookup key = none := by
  by_cases removal : op = .expirationsRemove key
  · rw [removal]
    exact Finmap.lookup_erase key db.expirations
  · rw [lookup_expirations_step keeps removal, missing]

theorem possible_step (early : env.now ≤ limit) : op.Possible limit (op.step env db).1 := by
  cases op with
  | now => exact early
  | _ => trivial

theorem live_step (early : env.now ≤ limit)
    (live : ∀ deadline, db.expirations.lookup key = some deadline → limit ≤ deadline) :
    op.Live key limit (op.step env db).1 := by
  cases op with
  | now => exact early
  | expirationsGet key' =>
      rintro rfl deadline found
      exact live deadline found
  | isExpired key' =>
      rintro rfl
      change (db.expirations.lookup key').any (· < env.now) = false
      cases found : db.expirations.lookup key' with
      | none => rfl
      | some deadline =>
          exact decide_eq_false (Nat.not_lt.mpr (early.trans (live deadline found)))
  | _ => trivial

end Calls

/-! ## The race -/

/-- A task that may find a key expired while a SET of the key runs. -/
inductive Task where
  | get
  | lrange (start stop : Int32)
  | cycle (fuel : ℕ)

/-- The program of a task; its result does not matter here. -/
def Task.prog (target : Target) (key : String) : Task → DbProg Unit
  | get => do let _ ← DB.get key
  | lrange start stop => do let _ ← DB.lrange target key start stop
  | cycle fuel => do let _ ← DB.activeExpirationCycle fuel

/-- The program of the SET. -/
def setTask (key : String) (value : RedisObject) (exp : Option Instant) : DbProg Unit := do
  let _ ← DB.set key value exp

/-- The SET as thread 0, with any number of cleanups as the other threads. -/
def race (target : Target) (db : DB) (key : String) (value : RedisObject)
    (exp : Option Instant) (tasks : List Task) : Pool DB Call Call.Response Unit :=
  ⟨db, setTask key value exp :: tasks.map (Task.prog target key)⟩

/-- The maps hold what a SET wrote. -/
def Holds (key : String) (value : RedisObject) (exp : Option Instant) (db : DB) : Prop :=
  db.data.lookup key = some value ∧ db.expirations.lookup key = exp

instance (key : String) (value : RedisObject) (exp : Option Instant) (db : DB) :
    Decidable (Holds key value exp db) :=
  inferInstanceAs (Decidable (_ ∧ _))

/-- The next call of a cleanup removes what a SET writes. -/
def Hits (key : String) (exp : Option Instant) (thread : DbProg Unit) : Prop :=
  thread.nextOp = some (.dataRemove key) ∨
    exp ≠ none ∧ thread.nextOp = some (.expirationsRemove key)

theorem Calm.not_hits {key : String} {thread : DbProg Unit} (calm : Calm key thread)
    (exp : Option Instant) : ¬Hits key exp thread := by
  rintro (removal | ⟨-, removal⟩)
  · exact calm.1 removal
  · exact calm.2 removal

theorem Task.careful_and_calm (target : Target) (key : String) (limit : Instant) (task : Task) :
    Careful key limit (task.prog target key) ∧ Calm key (task.prog target key) := by
  cases task with
  | get =>
      rw [Task.prog, DB.get, Prog.bind_assoc]
      refine ⟨careful_reader key ⟨(), rfl⟩ rfl fun found => ?_, calm_lazyExpiration key⟩
      cases found <;> exact ⟨(), rfl⟩
  | lrange start stop =>
      rw [Task.prog, DB.lrange, Prog.bind_assoc]
      refine ⟨careful_reader key ⟨(), rfl⟩ rfl fun found => ?_, calm_lazyExpiration key⟩
      rcases found with _ | (_ | _) <;> exact ⟨(), rfl⟩
  | cycle fuel =>
      exact careful_activeExpirationCycle fuel (fun _ => trivial) fun _ => calm_ret _

section Race

variable {key : String} {value : RedisObject} {exp : Option Instant} {limit : Instant}
  {head : DbProg Unit} {cleaners : List (DbProg Unit)} {pool : Pool DB Call Call.Response Unit}

/-- What is left of the SET once its value is in place. -/
def publish (key : String) : Option Instant → DbProg Unit
  | some deadline => .call (.expirationsInsert key deadline) fun _ => .ret ()
  | none => .ret ()

theorem setTask_eq (key : String) (value : RedisObject) (exp : Option Instant) :
    setTask key value exp = .call (.expirationsRemove key) fun _ =>
      .call (.dataInsert key value) fun _ => publish key exp := by
  cases exp <;> rfl

/-- The turn of a cleanup: it makes a call that inserts nothing, and goes on
checking before it removes. -/
theorem cleaner_turn (threads : pool.threads = head :: cleaners)
    (careful : ∀ thread ∈ cleaners, Careful key limit thread) (i : ℕ) {env : Env}
    (early : env.now ≤ limit) :
    ∃ cleaners', (pool.turn Call.step (i + 1, env)).threads = head :: cleaners' ∧
      (∀ thread ∈ cleaners', Careful key limit thread) ∧
        ((pool.turn Call.step (i + 1, env)).shared = pool.shared ∧ cleaners' = cleaners ∨
          ∃ op next, .call op next ∈ cleaners ∧
            (pool.turn Call.step (i + 1, env)).shared = (op.step env pool.shared).2 ∧
              ∀ thread ∈ cleaners', thread ∈ cleaners ∨
                thread = next (op.step env pool.shared).1) := by
  rcases Pool.turn_cases Call.step pool (i + 1, env) with same | ⟨op, next, found, made⟩
  · rw [same]
    exact ⟨cleaners, threads, careful, Or.inl ⟨rfl, rfl⟩⟩
  · rw [threads, List.getElem?_cons_succ] at found
    have member := List.mem_of_getElem? found
    rw [made, threads, List.set_cons_succ]
    have replaced : ∀ thread ∈ cleaners.set i (next (op.step env pool.shared).1),
        thread ∈ cleaners ∨ thread = next (op.step env pool.shared).1 :=
      fun thread inside => List.mem_or_eq_of_mem_set inside
    refine ⟨_, rfl, fun thread inside => ?_, Or.inr ⟨op, next, member, rfl, replaced⟩⟩
    rcases replaced thread inside with old | rfl
    · exact careful thread old
    · exact (careful _ member).2 _ (possible_step early)

/-- Before the SET begins the other threads only clean up. -/
theorem before_set (threads : pool.threads = head :: cleaners)
    (careful : ∀ thread ∈ cleaners, Careful key limit thread) {before : List (ℕ × Env)}
    (turns : ∀ turn ∈ before, turn.1 ≠ 0 ∧ turn.2.now ≤ limit) :
    ∃ cleaners', (pool.run Call.step before).threads = head :: cleaners' ∧
      ∀ thread ∈ cleaners', Careful key limit thread := by
  refine Pool.run_invariant (fun pool => ∃ cleaners', pool.threads = head :: cleaners' ∧
    ∀ thread ∈ cleaners', Careful key limit thread) ?_ turns ⟨cleaners, threads, careful⟩
  rintro pool ⟨i, env⟩ ⟨other, early⟩ ⟨cleaners, threads, careful⟩
  rcases Nat.exists_eq_succ_of_ne_zero other with ⟨i, rfl⟩
  rcases cleaner_turn threads careful i early with ⟨cleaners', threads', careful', -⟩
  exact ⟨cleaners', threads', careful'⟩

/-- How far the SET has come since its first call, and what the maps hold for its
key at that point. -/
inductive Stage (key : String) (value : RedisObject) (exp : Option Instant) :
    DbProg Unit → DB → Prop
  | cleared {db : DB} (deadline : db.expirations.lookup key = none) :
      Stage key value exp (.call (.dataInsert key value) fun _ => publish key exp) db
  | stored {db : DB} (data : db.data.lookup key = some value)
      (deadline : db.expirations.lookup key = none) : Stage key value exp (publish key exp) db
  | done {db : DB} (holds : Holds key value exp db) : Stage key value exp (.ret ()) db

namespace Stage

variable {db db' : DB}

theorem deadline (stage : Stage key value exp head db) :
    db.expirations.lookup key = none ∨ db.expirations.lookup key = exp := by
  cases stage with
  | cleared deadline => exact Or.inl deadline
  | stored data deadline => exact Or.inl deadline
  | done holds => exact Or.inr holds.2

theorem congr (stage : Stage key value exp head db)
    (data : db'.data.lookup key = db.data.lookup key)
    (deadline : db'.expirations.lookup key = db.expirations.lookup key) :
    Stage key value exp head db' := by
  cases stage with
  | cleared missing => exact cleared (deadline.trans missing)
  | stored found missing => exact stored (data.trans found) (deadline.trans missing)
  | done holds => exact done ⟨data.trans holds.1, deadline.trans holds.2⟩

/-- The next call of the SET brings it to its next stage. -/
theorem call {op : Call} {next : op.Response → DbProg Unit}
    (stage : Stage key value exp (.call op next) db) (env : Env) :
    Stage key value exp (next (op.step env db).1) (op.step env db).2 := by
  generalize current : Prog.call op next = prog at stage
  cases stage with
  | cleared deadline =>
      cases current
      exact stored (Finmap.lookup_insert db.data) deadline
  | stored data deadline =>
      cases exp with
      | none => cases current
      | some instant =>
          cases current
          exact done ⟨data, Finmap.lookup_insert db.expirations⟩
  | done holds => cases current

theorem holds_of_finished (stage : Stage key value exp head db) (finished : head.Finished) :
    Holds key value exp db := by
  cases stage with
  | cleared deadline => exact absurd finished (Prog.not_finished_call _ _)
  | stored data deadline =>
      cases exp with
      | none => exact ⟨data, deadline⟩
      | some instant => exact absurd finished (Prog.not_finished_call _ _)
  | done holds => exact holds

end Stage

/-- The SET has begun, and no cleanup is about to remove what it writes. -/
def Safe (key : String) (value : RedisObject) (exp : Option Instant) (limit : Instant)
    (pool : Pool DB Call Call.Response Unit) : Prop :=
  ∃ head cleaners, pool.threads = head :: cleaners ∧ Stage key value exp head pool.shared ∧
    ∀ thread ∈ cleaners, Careful key limit thread ∧ ¬Hits key exp thread

theorem Safe.turn (unexpired : ∀ deadline, exp = some deadline → limit ≤ deadline)
    (safe : Safe key value exp limit pool) (choice : ℕ × Env) (early : choice.2.now ≤ limit) :
    Safe key value exp limit (pool.turn Call.step choice) := by
  rcases safe with ⟨head, cleaners, threads, stage, others⟩
  rcases choice with ⟨_ | i, env⟩
  · rcases Pool.turn_cases Call.step pool (0, env) with same | ⟨op, next, found, made⟩
    · rw [same]
      exact ⟨head, cleaners, threads, stage, others⟩
    · simp only [threads, List.getElem?_cons_zero, Option.some.injEq] at found
      subst found
      rw [made, threads]
      exact ⟨_, cleaners, rfl, stage.call env, others⟩
  · obtain ⟨cleaners', threads', careful, same | ⟨op, next, member, shared, replaced⟩⟩ :=
      cleaner_turn threads (fun thread inside => (others thread inside).1) i early
    · exact ⟨head, cleaners', threads', same.1 ▸ stage, same.2 ▸ others⟩
    · rcases others _ member with ⟨⟨⟨keeps, checks⟩, -⟩, misses⟩
      have spares : op ≠ .dataRemove key := fun removal => misses (Or.inl (congrArg some removal))
      -- Removing a deadline is harmless when the SET gives none.
      have deadline : (op.step env pool.shared).2.expirations.lookup key =
          pool.shared.expirations.lookup key := by
        by_cases removal : op = .expirationsRemove key
        · have none : exp = none := by
            by_contra given
            exact misses (Or.inr ⟨given, congrArg some removal⟩)
          have missing := stage.deadline
          rw [none, or_self] at missing
          rw [lookup_expirations_step_none keeps missing, missing]
        · exact lookup_expirations_step keeps removal
      have live : ∀ instant, pool.shared.expirations.lookup key = some instant →
          limit ≤ instant := by
        intro instant found
        rcases stage.deadline with missing | given
        · rw [missing] at found
          cases found
        · exact unexpired instant (given.symm.trans found)
      refine ⟨head, cleaners', threads', ?_, fun thread inside => ⟨careful thread inside, ?_⟩⟩
      · rw [shared]
        exact stage.congr (lookup_data_step keeps spares) deadline
      · rcases replaced thread inside with old | rfl
        · exact (others thread old).2
        · exact (checks spares _ (live_step early live)).not_hits exp

/-- As long as the key has no deadline before `limit`, no cleanup gets to remove
it. -/
theorem calm_of_live (threads : pool.threads = head :: cleaners)
    (others : ∀ thread ∈ cleaners, Careful key limit thread ∧ Calm key thread)
    (live : ∀ deadline, pool.shared.expirations.lookup key = some deadline → limit ≤ deadline)
    {before : List (ℕ × Env)} (turns : ∀ turn ∈ before, turn.1 ≠ 0 ∧ turn.2.now ≤ limit) :
    ∀ thread ∈ (pool.run Call.step before).threads.tail, Calm key thread := by
  suffices kept : ∃ cleaners, (pool.run Call.step before).threads = head :: cleaners ∧
      (∀ thread ∈ cleaners, Careful key limit thread ∧ Calm key thread) ∧
        ∀ deadline, (pool.run Call.step before).shared.expirations.lookup key = some deadline →
          limit ≤ deadline by
    rcases kept with ⟨cleaners, threads, others, -⟩
    intro thread member
    rw [threads, List.tail_cons] at member
    exact (others thread member).2
  refine Pool.run_invariant (fun pool => ∃ cleaners, pool.threads = head :: cleaners ∧
    (∀ thread ∈ cleaners, Careful key limit thread ∧ Calm key thread) ∧
      ∀ deadline, pool.shared.expirations.lookup key = some deadline → limit ≤ deadline)
    ?_ turns ⟨cleaners, threads, others, live⟩
  rintro pool ⟨i, env⟩ ⟨other, early⟩ ⟨cleaners, threads, others, live⟩
  rcases Nat.exists_eq_succ_of_ne_zero other with ⟨i, rfl⟩
  obtain ⟨cleaners', threads', careful, same | ⟨op, next, member, shared, replaced⟩⟩ :=
    cleaner_turn threads (fun thread inside => (others thread inside).1) i early
  · exact ⟨cleaners', threads', same.2 ▸ others, same.1 ▸ live⟩
  · rcases others _ member with ⟨⟨⟨keeps, checks⟩, -⟩, calm⟩
    have data : op ≠ .dataRemove key := fun removal => calm.1 (congrArg some removal)
    have deadline : op ≠ .expirationsRemove key := fun removal => calm.2 (congrArg some removal)
    refine ⟨cleaners', threads', fun thread inside => ⟨careful thread inside, ?_⟩, ?_⟩
    · rcases replaced thread inside with old | rfl
      · exact (others thread old).2
      · exact checks data _ (live_step early live)
    · rw [Nat.succ_eq_add_one, shared, lookup_expirations_step keeps deadline]
      exact live

/-- What the SET wrote is gone, at least in part. -/
def Lost (key : String) (exp : Option Instant) (db : DB) : Prop :=
  db.data.lookup key = none ∨ exp ≠ none ∧ db.expirations.lookup key = none

theorem Lost.not_holds {db : DB} (lost : Lost key exp db) : ¬Holds key value exp db := by
  rintro ⟨data, deadline⟩
  rcases lost with missing | ⟨given, missing⟩
  · rw [missing] at data
    cases data
  · exact given (deadline.symm.trans missing)

theorem Lost.step {op : Call} {env : Env} {db : DB} (lost : Lost key exp db)
    (keeps : ¬op.Inserts) : Lost key exp (op.step env db).2 := by
  rcases lost with missing | ⟨given, missing⟩
  · exact Or.inl (lookup_data_step_none keeps missing)
  · exact Or.inr ⟨given, lookup_expirations_step_none keeps missing⟩

/-- Once the SET has returned, nobody brings back what a cleanup removed. -/
theorem lost_turn {choice : ℕ × Env} (early : choice.2.now ≤ limit)
    (lost : ∃ cleaners, pool.threads = .ret () :: cleaners ∧
      (∀ thread ∈ cleaners, Careful key limit thread) ∧ Lost key exp pool.shared) :
    ∃ cleaners, (pool.turn Call.step choice).threads = .ret () :: cleaners ∧
      (∀ thread ∈ cleaners, Careful key limit thread) ∧
        Lost key exp (pool.turn Call.step choice).shared := by
  rcases lost with ⟨cleaners, threads, careful, lost⟩
  rcases choice with ⟨_ | i, env⟩
  · have idle : pool.turn Call.step (0, env) = pool := by simp [Pool.turn, threads]
    rw [idle]
    exact ⟨cleaners, threads, careful, lost⟩
  · obtain ⟨cleaners', threads', careful', same | ⟨op, next, member, shared, -⟩⟩ :=
      cleaner_turn threads careful i early
    · exact ⟨cleaners', threads', careful', same.1 ▸ lost⟩
    · exact ⟨cleaners', threads', careful', shared ▸ lost.step (careful _ member).1.1⟩

/-- A cleanup that is about to remove what the SET writes can wait until the SET
has returned. -/
theorem exists_lost
    (threads : pool.threads =
      .call (.dataInsert key value) (fun _ => publish key exp) :: cleaners)
    (careful : ∀ thread ∈ cleaners, Careful key limit thread) {thread : DbProg Unit}
    (member : thread ∈ cleaners) (hits : Hits key exp thread) {env : Env}
    (early : env.now ≤ limit) :
    ∃ turns : List (ℕ × Env), (∀ turn ∈ turns, turn.2 = env) ∧
      ∃ cleaners', (pool.run Call.step turns).threads = .ret () :: cleaners' ∧
        (∀ thread ∈ cleaners', Careful key limit thread) ∧
          Lost key exp (pool.run Call.step turns).shared := by
  rcases List.mem_iff_getElem.mp member with ⟨i, inside, rfl⟩
  -- Two turns end the SET; the third one is the removal.
  have stored : (pool.turn Call.step (0, env)).threads = publish key exp :: cleaners := by
    simp [Pool.turn, threads]
  have returned : ((pool.turn Call.step (0, env)).turn Call.step (0, env)).threads =
      .ret () :: cleaners := by
    cases exp <;> simp [Pool.turn, threads, publish]
  refine ⟨[(0, env), (0, env), (i + 1, env)], by simp, ?_⟩
  generalize after : (pool.turn Call.step (0, env)).turn Call.step (0, env) = pool' at returned
  simp only [Pool.run_cons, Pool.run_nil, after]
  obtain ⟨op, next, current⟩ : ∃ op next, cleaners[i] = .call op next := by
    generalize cleaners[i] = prog at hits
    cases prog with
    | ret value => simp [Hits] at hits
    | call op next => exact ⟨op, next, rfl⟩
  have found : pool'.threads[(i + 1, env).1]? = some (.call op next) := by
    rw [returned, List.getElem?_cons_succ, List.getElem?_eq_getElem inside, current]
  rcases cleaner_turn returned careful i early with ⟨cleaners', threads', careful', -⟩
  refine ⟨cleaners', threads', careful', ?_⟩
  rw [Pool.turn_of_call Call.step found]
  rw [current] at hits
  rcases hits with removal | ⟨given, removal⟩
  · cases removal
    exact Or.inl (Finmap.lookup_erase key pool'.shared.data)
  · cases removal
    exact Or.inr ⟨given, Finmap.lookup_erase key pool'.shared.expirations⟩

theorem turn_setTask (threads : pool.threads = setTask key value exp :: cleaners) (env : Env) :
    pool.turn Call.step (0, env) =
      ⟨{ pool.shared with expirations := pool.shared.expirations.erase key },
        .call (.dataInsert key value) (fun _ => publish key exp) :: cleaners⟩ := by
  rw [setTask_eq] at threads
  simp [Pool.turn, threads, Call.step]

/-- A SET that begins while no cleanup is about to remove what it writes. -/
theorem holds_of_not_hits (unexpired : ∀ deadline, exp = some deadline → limit ≤ deadline)
    (threads : pool.threads = setTask key value exp :: cleaners)
    (careful : ∀ thread ∈ cleaners, Careful key limit thread)
    (misses : ∀ thread ∈ cleaners, ¬Hits key exp thread) {env : Env} {after : List (ℕ × Env)}
    (within : ∀ turn ∈ after, turn.2.now ≤ limit)
    (finished : (pool.run Call.step ((0, env) :: after)).Finished) :
    Holds key value exp (pool.run Call.step ((0, env) :: after)).shared := by
  have safe : Safe key value exp limit (pool.turn Call.step (0, env)) := by
    rw [turn_setTask threads env]
    exact ⟨_, cleaners, rfl, .cleared (Finmap.lookup_erase key pool.shared.expirations),
      fun thread member => ⟨careful thread member, misses thread member⟩⟩
  obtain ⟨head, _, threads, stage, -⟩ := Pool.run_invariant (Safe key value exp limit)
    (fun _ choice early safe => safe.turn unexpired choice early) within safe
  refine stage.holds_of_finished (finished head ?_)
  rw [Pool.run_cons, threads]
  exact List.mem_cons_self

/-- A SET that begins while a cleanup is about to remove what it writes: let the
SET return, then the removal happen, then everybody else finish. -/
theorem exists_finished_lost (threads : pool.threads = setTask key value exp :: cleaners)
    (careful : ∀ thread ∈ cleaners, Careful key limit thread) {thread : DbProg Unit}
    (member : thread ∈ cleaners) (hits : Hits key exp thread) :
    ∃ after : List (ℕ × Env), (∀ turn ∈ after, turn.2.now ≤ limit) ∧
      (pool.run Call.step ((0, Env.at limit) :: after)).Finished ∧
        Lost key exp (pool.run Call.step ((0, Env.at limit) :: after)).shared := by
  obtain ⟨turns, sameEnv, lost⟩ := exists_lost
    (congrArg Pool.threads (turn_setTask threads (Env.at limit))) careful member hits
    (le_refl (Env.at limit).now)
  obtain ⟨threads', finished⟩ := Pool.exists_finished Call.step (fun _ => Env.at limit)
    (Pool.run Call.step (pool.turn Call.step (0, Env.at limit)) turns)
  generalize later : threads'.map (fun i => (i, Env.at limit)) = rest at finished
  have within : ∀ turn ∈ rest, turn.2.now ≤ limit := by
    subst later
    intro turn inside
    rcases List.mem_map.mp inside with ⟨i, -, rfl⟩
    exact le_refl limit
  obtain ⟨-, -, -, lost⟩ := Pool.run_invariant (fun pool => ∃ cleaners,
    pool.threads = .ret () :: cleaners ∧ (∀ thread ∈ cleaners, Careful key limit thread) ∧
      Lost key exp pool.shared) (fun _ _ early => lost_turn early) within lost
  rw [← Pool.run_append] at finished lost
  refine ⟨turns ++ rest, fun turn inside => ?_, finished, lost⟩
  rcases List.mem_append.mp inside with early | late
  · exact (congrArg Env.now (sameEnv turn early)).le
  · exact within turn late

end Race

theorem race_threads (target : Target) (db : DB) (key : String) (value : RedisObject)
    (exp : Option Instant) (tasks : List Task) :
    (race target db key value exp tasks).threads =
      setTask key value exp :: tasks.map (Task.prog target key) :=
  rfl

theorem careful_and_calm_of_mem_tasks (target : Target) (key : String) (limit : Instant)
    (tasks : List Task) : ∀ thread ∈ tasks.map (Task.prog target key),
      Careful key limit thread ∧ Calm key thread := by
  intro thread member
  rcases List.mem_map.mp member with ⟨task, -, rfl⟩
  exact task.careful_and_calm target key limit

/-- A SET whose deadline, if any, lies at or after every clock reading.  Let it
begin after any turns of the cleanups.  Its value and deadline are in the maps at
the end of every way to finish all tasks, if and only if none of the cleanups was
just about to remove them when the SET began. -/
theorem set_survives_iff (target : Target) (db : DB) (key : String) (value : RedisObject)
    (exp : Option Instant) (tasks : List Task) {limit : Instant}
    (unexpired : ∀ deadline, exp = some deadline → limit ≤ deadline) {before : List (ℕ × Env)}
    (turns : ∀ turn ∈ before, turn.1 ≠ 0 ∧ turn.2.now ≤ limit) :
    (∀ env after, env.now ≤ limit → (∀ turn ∈ after, turn.2.now ≤ limit) →
      let final := (race target db key value exp tasks).run Call.step (before ++ (0, env) :: after)
      final.Finished → Holds key value exp final.shared) ↔
    ∀ thread ∈ ((race target db key value exp tasks).run Call.step before).threads.tail,
      ¬Hits key exp thread := by
  obtain ⟨cleaners, threads, careful⟩ := before_set (race_threads target db key value exp tasks)
    (fun thread member => (careful_and_calm_of_mem_tasks target key limit tasks thread member).1)
    turns
  simp only [Pool.run_append]
  generalize (race target db key value exp tasks).run Call.step before = pool at threads
  rw [threads, List.tail_cons]
  constructor
  · intro survives thread member hits
    rcases exists_finished_lost threads careful member hits with ⟨after, within, finished, lost⟩
    exact lost.not_holds (survives (Env.at limit) after le_rfl within finished)
  · intro misses env after _ within finished
    exact holds_of_not_hits unexpired threads careful misses within finished

/-- A SET of a key that has no deadline before the last clock reading survives
all cleanups. -/
theorem holds_of_live {target : Target} {db : DB} {key : String} {value : RedisObject}
    {exp : Option Instant} {tasks : List Task} {limit : Instant}
    (unexpired : ∀ deadline, exp = some deadline → limit ≤ deadline)
    (live : ∀ deadline, db.expirations.lookup key = some deadline → limit ≤ deadline)
    {before after : List (ℕ × Env)} (turns : ∀ turn ∈ before, turn.1 ≠ 0 ∧ turn.2.now ≤ limit)
    {env : Env} (within : ∀ turn ∈ after, turn.2.now ≤ limit)
    (finished : ((race target db key value exp tasks).run Call.step
      (before ++ (0, env) :: after)).Finished) :
    Holds key value exp ((race target db key value exp tasks).run Call.step
      (before ++ (0, env) :: after)).shared := by
  have others := careful_and_calm_of_mem_tasks target key limit tasks
  obtain ⟨cleaners, threads, careful⟩ := before_set (race_threads target db key value exp tasks)
    (fun thread member => (others thread member).1) turns
  have calm := calm_of_live (race_threads target db key value exp tasks) others live turns
  rw [Pool.run_append] at finished ⊢
  rw [threads, List.tail_cons] at calm
  exact holds_of_not_hits unexpired threads careful
    (fun thread member => (calm thread member).not_hits exp) within finished

/-- A GET has seen that the key has a deadline, which has passed, but has not
compared it with the clock when the SET removes it. -/
theorem set_survives_iff_interleaved :
    let old : DB := ⟨Finmap.singleton "k" (.string "old"), Finmap.singleton "k" 5⟩
    Holds "k" (.string "new") none ((race ⟨true, 24⟩ old "k" (.string "new") none [.get]).run
      Call.step ([(1, Env.at 6)] ++ (0, Env.at 6) ::
        [(1, Env.at 6), (0, Env.at 6), (1, Env.at 6)])).shared := by
  intro old
  have unexpired : ∀ deadline, (none : Option Instant) = some deadline → 6 ≤ deadline := nofun
  refine (set_survives_iff ⟨true, 24⟩ old "k" (.string "new") none [.get] unexpired
    (by simp [Env.at])).mpr ?_ (Env.at 6) _ le_rfl (by simp [Env.at]) ?_
  · rintro thread (_ | ⟨_, ⟨⟩⟩) (removal | ⟨given, -⟩)
    · cases removal
    · exact given rfl
  · decide

/-- The deadline of a key passes at 5.  At 6 a GET, or the cleanup cycle, finds
the key expired; a SET without deadline then runs to its end; then the cleanup
removes the new value. -/
theorem set_lost_to_cleanup :
    let old : DB := ⟨Finmap.singleton "k" (.string "old"), Finmap.singleton "k" 5⟩
    let env : Env := ⟨6, ["k"], 0⟩
    let get := (race ⟨true, 24⟩ old "k" (.string "new") none [.get]).run Call.step
      (List.replicate 2 (1, env) ++ List.replicate 2 (0, env) ++ List.replicate 2 (1, env))
    let cycle := (race ⟨true, 24⟩ old "k" (.string "new") none [.cycle 2]).run Call.step
      (List.replicate 5 (1, env) ++ List.replicate 2 (0, env) ++ List.replicate 4 (1, env))
    (get.Finished ∧ ¬Holds "k" (.string "new") none get.shared) ∧
      cycle.Finished ∧ ¬Holds "k" (.string "new") none cycle.shared := by
  decide +kernel

end CleanupRace

end Ember.Database
