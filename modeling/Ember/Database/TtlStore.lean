import Ember.Base.Refinement
import Ember.Database.Sequential

/-!
# Expiration as one time-to-live store

The purpose of the lazy and the active expiration paths: a store in which every
entry carries its deadline, an entry is absent once its deadline has passed, and
nothing is ever removed for being old.  The database refines it, whatever its
cleanup cycle does in between.
-/

namespace Ember.Database

open Ember.Base

/-- A value with its deadline, if any, for each key. -/
abbrev TtlStore := String → Option (RedisObject × Option Instant)

/-- The operations of a run: two writers that replace an entry as a whole, and the
two readers. -/
inductive Operation where
  | set (key : String) (value : RedisObject) (expiresAt : Option Instant)
  | get (key : String)
  | delete (key : String)
  | lrange (key : String) (start stop : Int32)

namespace TtlStore

/-- What the two maps of a database say about every key. -/
def ofDB (db : DB) : TtlStore :=
  fun key => (db.data.lookup key).map fun value => (value, db.expirations.lookup key)

/-- The value of an entry that is not past its deadline. -/
def visible (store : TtlStore) (now : Instant) (key : String) : Option RedisObject :=
  (store key).bind fun (value, deadline) =>
    if deadline.any (· < now) then none else some value

theorem visible_update (store : TtlStore) (now : Instant) (key key' : String)
    (entry : Option (RedisObject × Option Instant)) :
    visible (Function.update store key entry) now key' =
      if key' = key then visible (fun _ => entry) now key else store.visible now key' := by
  unfold visible
  split
  next same => rw [same, Function.update_self]
  next other => rw [Function.update_of_ne other]

/-- One operation of the reference store and its answer, if it reads. -/
def step (target : Target) (store : TtlStore) :
    Instant × Operation → TtlStore × List (Outcome String RedisObject)
  | (_, .set key value expiresAt) =>
      (Function.update store key (some (value, expiresAt)), [])
  | (now, .get key) => (store, [DB.getReply (store.visible now key)])
  | (_, .delete key) => (Function.update store key none, [])
  | (now, .lrange key start stop) =>
      (store, [DB.lrangeReply target start stop (store.visible now key)])

end TtlStore

/-- The steps of a sequential run of the database. -/
inductive Event where
  | operation (now : Instant) (op : Operation)
  | cleanup (run : CleanupRun)

namespace Event

/-- When a step begins and ends. -/
def window : Event → Instant × Instant
  | operation now _ => (now, now)
  | cleanup run => (run.start, run.stop)

/-- The operation of the reference store a step stands for. -/
def visible : Event → Option (Instant × Operation)
  | operation now op => some (now, op)
  | cleanup _ => none

end Event

namespace DB

/-- An operation that runs alone, with its answer if it reads. -/
def operate (target : Target) (db : DB) (now : Instant) :
    Operation → DB × List (Outcome String RedisObject)
  | .set key value expiresAt => ((exec now (set key value expiresAt) db).2, [])
  | .get key => let (reply, db) := exec now (get key) db; (db, [reply])
  | .delete key => ((exec now (delete key) db).2, [])
  | .lrange key start stop =>
      let (reply, db) := exec now (lrange target key start stop) db
      (db, [reply])

/-- One step of a sequential run. -/
def step (target : Target) (db : DB) : Event → DB × List (Outcome String RedisObject)
  | .operation now op => db.operate target now op
  | .cleanup run => (db.cleanup run, [])

/-- From time `now` on, all readers see the same in the database and in the store. -/
def Implements (now : Instant) (db : DB) (store : TtlStore) : Prop :=
  ∀ later, now ≤ later → ∀ key, db.visible later key = store.visible later key

theorem implements_ofDB (now : Instant) (db : DB) : Implements now db (TtlStore.ofDB db) := by
  intro later _ key
  unfold visible TtlStore.visible TtlStore.ofDB expired
  cases db.data.lookup key <;> simp

namespace Implements

variable {now : Instant} {db db' : DB} {store : TtlStore}

theorem of_reaped (same : Implements now db store) (reaped : Reaped now db db') :
    Implements now db' store := by
  intro later after key
  rw [reaped.visible_eq after key, same later after key]

theorem bindKey (same : Implements now db store) (key : String) (value : RedisObject)
    (deadline : Option Instant) :
    Implements now (db.bindKey key value deadline)
      (Function.update store key (some (value, deadline))) := by
  intro later after key'
  rw [visible_bindKey, TtlStore.visible_update, same later after key']
  rfl

theorem evict (same : Implements now db store) (key : String) :
    Implements now (db.evict key) (Function.update store key none) := by
  intro later after key'
  rw [visible_evict, TtlStore.visible_update, same later after key']
  rfl

/-- Every operation answers as the store does and keeps the agreement. -/
theorem operate (target : Target) (same : Implements now db store) (op : Operation) :
    (db.operate target now op).2 = (store.step target (now, op)).2 ∧
      Implements now (db.operate target now op).1 (store.step target (now, op)).1 := by
  cases op with
  | set key value expiresAt =>
      simp only [DB.operate, exec_set]
      exact ⟨rfl, same.bindKey key value expiresAt⟩
  | get key =>
      simp only [DB.operate, exec_get, same now le_rfl key]
      exact ⟨rfl, same.of_reaped (Reaped.settle now db key)⟩
  | delete key =>
      simp only [DB.operate, exec_delete]
      exact ⟨rfl, same.evict key⟩
  | lrange key start stop =>
      simp only [DB.operate, exec_lrange, same now le_rfl key]
      exact ⟨rfl, same.of_reaped (Reaped.settle now db key)⟩

end Implements

/-- Agreement of all readers from now on is kept by operations and cleanup runs. -/
theorem implements_simulation (target : Target) :
    TimedSimulation (step target) (TtlStore.step target) Event.window Event.visible
      Implements where
  mono early same later after := same later (early.trans after)
  silent {db store event} hidden same := by
    cases event with
    | operation now op => cases hidden
    | cleanup run =>
        refine ⟨rfl, Implements.of_reaped ?_ (cleanup_reaped db run)⟩
        exact fun later after => same later (run.ordered.trans after)
  matched {db store event move} shown same := by
    cases event with
    | operation now op =>
        cases shown
        exact same.operate target op
    | cleanup run => cases shown

/-- Lazy and active expiration together refine the store: whatever the maps hold
at the start, the answers of a run are those of the reference store to the same
operations, so that cleanup runs change none of them. -/
theorem expiration_refines_ttlStore (target : Target) (db : DB) {start : Instant}
    {run : List Event} (ordered : InOrder Event.window start run) :
    outputs (step target) db run =
        outputs (TtlStore.step target) (TtlStore.ofDB db) (run.filterMap Event.visible) ∧
      ∀ run', InOrder Event.window start run' →
        run'.filterMap Event.visible = run.filterMap Event.visible →
          outputs (step target) db run' = outputs (step target) db run := by
  have refines : ∀ events, InOrder Event.window start events → outputs (step target) db events =
      outputs (TtlStore.step target) (TtlStore.ofDB db) (events.filterMap Event.visible) :=
    fun _ inOrder => (implements_simulation target).outputs_eq inOrder (implements_ofDB start db)
  refine ⟨refines run ordered, fun run' ordered' sameOperations => ?_⟩
  rw [refines run' ordered', refines run ordered, sameOperations]

/-- A key is read at its deadline, reaped after it and read again. -/
theorem expiration_refines_ttlStore_reaped :
    outputs (step ⟨true, 24⟩) newInMemory
      [.operation 0 (.set "k" (.string "v") (some 5)), .operation 5 (.get "k"),
        .cleanup ⟨3, fun _ => ⟨6, ["k"], 0⟩, 6, 6, le_rfl, fun _ => le_rfl⟩,
        .operation 6 (.get "k")] = [.ok (.string "v"), .ok nil] :=
  (expiration_refines_ttlStore ⟨true, 24⟩ newInMemory
    (show InOrder Event.window 0 _ by simp [InOrder, Event.window])).1.trans (by decide)

end DB

end Ember.Database
