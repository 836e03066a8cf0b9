import Ember.Base.Interleaving
import Ember.Database.Sequential

/-!
# Operations on different keys

An operation reads and writes the entries of its own key only, and none of its calls
depends on how many entries the maps have.  Operations on different keys can
therefore be interleaved in any way: the maps and the results are those of running
the operations one after the other.
-/

namespace Ember.Database

open Ember.Base

/-- What the maps hold for one key. -/
@[ext]
structure Entry where
  value : Option RedisObject
  deadline : Option Instant
  deriving DecidableEq

/-- The value is replaced in place, unless there is none or the update fails. -/
def Entry.getMut (update : RedisObject → Outcome String RedisObject) (entry : Entry) :
    Option (Outcome String Unit) × Entry :=
  match entry.value.map update with
  | none => (none, entry)
  | some (.ok value) => (some (.ok ()), { entry with value := some value })
  | some (.error reason) => (some (.error reason), entry)
  | some .panic => (some .panic, entry)

namespace DB

/-- What the maps hold of a key. -/
def entry (db : DB) (key : String) : Entry :=
  ⟨db.data.lookup key, db.expirations.lookup key⟩

/-- The maps with the entry of one key replaced. -/
def putEntry (db : DB) (key : String) (entry : Entry) : DB :=
  ⟨db.data.put key entry.value, db.expirations.put key entry.deadline⟩

variable (db : DB) {key key' : String}

theorem entry_putEntry (different : key ≠ key') (entry : Entry) :
    (db.putEntry key' entry).entry key = db.entry key := by
  simp only [DB.entry, putEntry, FiniteMap.lookup_put_if, if_neg different]

theorem putEntry_comm (different : key ≠ key') (entry entry' : Entry) :
    (db.putEntry key entry).putEntry key' entry' =
      (db.putEntry key' entry').putEntry key entry := by
  simp only [putEntry, FiniteMap.put_comm _ different]

end DB

/-! ## Calls -/

namespace Call

/-- A call that looks at the entry of one key at most. -/
def On (key : String) : Call → Prop
  | now | randomRange _ => True
  | dataGet key' | dataContainsKey key' | dataInsert key' _ | dataRemove key'
  | dataGetMut key' _ | expirationsGet key' | isExpired key' | expirationsContainsKey key'
  | expirationsInsert key' _ | expirationsRemove key' => key' = key
  | expirationsLen | expirationsIter => False

theorem On.actsOn {key : String} {op : Call} (on : op.On key) (env : Env) :
    ActsOn (DB.entry · key) (DB.putEntry · key) (op.step env) := by
  have kept : ∀ db : DB, db.putEntry key (db.entry key) = db := by
    intro db
    simp only [DB.putEntry, DB.entry, FiniteMap.put_lookup_self]
  cases op with
  | now => exact .of_read kept (fun _ => env.now) fun _ => rfl
  | randomRange total => exact .of_read kept (fun _ => env.skip % total) fun _ => rfl
  | dataGet =>
      cases on
      exact .of_read kept Entry.value fun _ => rfl
  | dataContainsKey =>
      cases on
      exact .of_read kept (fun entry => entry.value.isSome) fun _ => rfl
  | dataInsert _ value =>
      cases on
      exists fun entry => ((), { entry with value := some value })
      simp [step, DB.putEntry, DB.entry]
  | dataRemove =>
      cases on
      exists fun entry => ((), { entry with value := none })
      simp [step, DB.putEntry, DB.entry]
  | dataGetMut _ update =>
      cases on
      exists Entry.getMut update
      intro db
      have same := kept db
      cases found : db.data.lookup key with
      | none => simp_all [step, DB.entry, Entry.getMut]
      | some value =>
          cases updated : update value <;>
            simp_all [step, DB.entry, DB.putEntry, Entry.getMut]
  | expirationsGet =>
      cases on
      exact .of_read kept Entry.deadline fun _ => rfl
  | isExpired =>
      cases on
      exact .of_read kept (fun entry => entry.deadline.any (· < env.now)) fun _ => rfl
  | expirationsContainsKey =>
      cases on
      exact .of_read kept (fun entry => entry.deadline.isSome) fun _ => rfl
  | expirationsInsert _ deadline =>
      cases on
      exists fun entry => ((), { entry with deadline := some deadline })
      simp [step, DB.putEntry, DB.entry]
  | expirationsRemove =>
      cases on
      exists fun entry => ((), { entry with deadline := none })
      simp [step, DB.putEntry, DB.entry]
  | expirationsLen => exact on.elim
  | expirationsIter => exact on.elim

/-- A call on one key leaves the entries of the others alone. -/
theorem On.entry_step {key key' : String} {op : Call} (on : op.On key') (other : key ≠ key')
    (env : Env) (db : DB) : (op.step env db).2.entry key = db.entry key := by
  rcases on.actsOn env with ⟨f, acts⟩
  dsimp only at acts
  rw [acts]
  exact db.entry_putEntry other _

/-- Calls on different keys do not interfere. -/
theorem On.commutes {key key' : String} (different : key ≠ key') {op op' : Call} (on : op.On key)
    (on' : op'.On key') (env env' : Env) : Commutes (op.step env) (op'.step env') := by
  apply (on.actsOn env).commutes (on'.actsOn env')
  · exact fun db => db.entry_putEntry different
  · exact fun db => db.entry_putEntry different.symm
  · exact fun db => db.putEntry_comm different

end Call

/-! ## Operations -/

namespace DB

variable (key : String)

theorem calls_set (value : RedisObject) (expiresAt : Option Instant) :
    (set key value expiresAt).Calls (Call.On key) := by
  cases expiresAt with
  | none => exact ⟨rfl, fun _ => ⟨rfl, fun _ => trivial⟩⟩
  | some deadline => exact ⟨rfl, fun _ => ⟨rfl, fun _ => ⟨rfl, fun _ => trivial⟩⟩⟩

theorem calls_lazyExpiration : (lazyExpiration key).Calls (Call.On key) := by
  constructor
  · exact rfl
  · rintro (_ | deadline)
    · exact trivial
    · constructor
      · exact rfl
      · rintro (_ | _)
        · exact trivial
        · exact ⟨rfl, fun _ => ⟨rfl, fun _ => trivial⟩⟩

theorem calls_get : (get key).Calls (Call.On key) := by
  apply (calls_lazyExpiration key).bind
  rintro (_ | _)
  · constructor
    · exact rfl
    · rintro (_ | value) <;> exact trivial
  · exact trivial

theorem calls_lrange (target : Target) (start stop : Int32) :
    (lrange target key start stop).Calls (Call.On key) := by
  apply (calls_lazyExpiration key).bind
  rintro (_ | _)
  · constructor
    · exact rfl
    · rintro (_ | _ | _) <;> exact trivial
  · exact trivial

theorem calls_delete : (delete key).Calls (Call.On key) :=
  ⟨rfl, fun _ => ⟨rfl, fun _ => trivial⟩⟩

theorem calls_push (fresh : List RedisObject) (update : List RedisObject → List RedisObject) :
    (push key fresh update).Calls (Call.On key) := by
  constructor
  · exact rfl
  · rintro (_ | result)
    · exact ⟨rfl, fun _ => trivial⟩
    · exact trivial

theorem calls_updateExpiry (expiresAt : Instant) (option : Option String) :
    (updateExpiry key expiresAt option).Calls (Call.On key) := by
  cases option with
  | none => exact trivial
  | some opt =>
      simp only [updateExpiry]
      split_ifs
      · exact ⟨rfl, fun _ => trivial⟩
      · exact ⟨rfl, fun _ => trivial⟩
      · exact ⟨rfl, fun _ => trivial⟩
      · exact ⟨rfl, fun _ => trivial⟩
      · exact trivial

theorem calls_expire (expiresAt : Instant) (option : Option String) :
    (expire key expiresAt option).Calls (Call.On key) := by
  constructor
  · exact rfl
  · rintro (_ | _)
    · exact trivial
    · apply (calls_updateExpiry key expiresAt option).bind
      rintro (_ | _ | _)
      · exact trivial
      · exact trivial
      · exact ⟨rfl, fun _ => trivial⟩

end DB

/-- The operations on one key. -/
inductive KeyOperation where
  | set (value : RedisObject) (expiresAt : Option Instant)
  | get
  | delete
  | lpush (values : List RedisObject)
  | rpush (values : List RedisObject)
  | lrange (start stop : Int32)
  | expire (expiresAt : Instant) (option : Option String)

namespace KeyOperation

/-- The program of an operation; those that only write have no value to return. -/
def prog (target : Target) (key : String) :
    KeyOperation → DbProg (Outcome String (Option RedisObject))
  | set value expiresAt => do return (fun _ => none) <$> (← DB.set key value expiresAt)
  | get => do return some <$> (← DB.get key)
  | delete => do return (fun _ => none) <$> (← DB.delete key)
  | lpush values => do return (fun _ => none) <$> (← DB.lpush key values)
  | rpush values => do return (fun _ => none) <$> (← DB.rpush key values)
  | lrange start stop => do return some <$> (← DB.lrange target key start stop)
  | expire expiresAt option => do return (fun _ => none) <$> (← DB.expire key expiresAt option)

theorem calls_prog (target : Target) (key : String) (op : KeyOperation) :
    (op.prog target key).Calls (Call.On key) := by
  cases op with
  | set value expiresAt => exact (DB.calls_set key value expiresAt).bind fun _ => trivial
  | get => exact (DB.calls_get key).bind fun _ => trivial
  | delete => exact (DB.calls_delete key).bind fun _ => trivial
  | lpush values => exact (DB.calls_push key _ _).bind fun _ => trivial
  | rpush values => exact (DB.calls_push key _ _).bind fun _ => trivial
  | lrange start stop => exact (DB.calls_lrange key target start stop).bind fun _ => trivial
  | expire expiresAt option => exact (DB.calls_expire key expiresAt option).bind fun _ => trivial

/-- Two operations on different keys, each at its own time: every interleaving of
their calls can be brought to an end, and once both have returned the maps and the
results are those of the operations one after the other, in either order. -/
theorem run_of_different_keys (target : Target) (db : DB) {key key' : String}
    (different : key ≠ key') (op op' : KeyOperation) (times : ℕ → Instant) (turns : List ℕ) :
    let first := op.prog target key
    let second := op'.prog target key'
    let final := fun turns => Pool.run Call.step ⟨db, [first, second]⟩
      (turns.map fun i => (i, Env.at (times i)))
    (∃ more, (final (turns ++ more)).Finished) ∧
      ((final turns).Finished →
        let afterFirst := DB.exec (times 0) first db
        let afterSecond := DB.exec (times 1) second db
        let firstLast := DB.exec (times 0) first afterSecond.2
        let secondLast := DB.exec (times 1) second afterFirst.2
        final turns = ⟨secondLast.2, [.ret afterFirst.1, .ret secondLast.1]⟩ ∧
          final turns = ⟨firstLast.2, [.ret firstLast.1, .ret afterSecond.1]⟩) := by
  intro first second final
  constructor
  · rcases Pool.exists_finished Call.step (fun i => Env.at (times i)) (final turns)
      with ⟨more, finished⟩
    exists more
    simp only [final, List.map_append, Pool.run_append]
    exact finished
  · intro finished
    have calls := calls_prog target key op
    have calls' := calls_prog target key' op'
    have commutes := fun (op op' : Call) (on : op.On key) (on' : op'.On key') =>
      on.commutes different on' (Env.at (times 0)) (Env.at (times 1))
    have ended := Pool.run_of_independent commutes calls calls' finished
    have exchange := Prog.commutes_run commutes calls calls'
    constructor
    · rw [DB.exec, DB.exec, exchange.second]
      exact ended
    · rw [DB.exec, DB.exec, exchange.first, ← exchange.state]
      exact ended

/-- A push that creates its list while another key is read. -/
theorem run_of_different_keys_push_get :
    let db : DB := ⟨FiniteMap.ofList [("b", .string "v")], ∅⟩
    let first := prog ⟨true, 24⟩ "a" (.lpush [.string "x"])
    let second := prog ⟨true, 24⟩ "b" .get
    let final := Pool.run Call.step ⟨db, [first, second]⟩
      ([0, 1, 1, 0].map fun i => (i, Env.at i))
    final.Finished ∧ final.shared = (DB.exec 1 second (DB.exec 0 first db).2).2 := by
  intro db first second final
  have finished : final.Finished := by decide
  have law := run_of_different_keys ⟨true, 24⟩ db (by decide : "a" ≠ "b") (.lpush [.string "x"])
    .get id [0, 1, 1, 0]
  exact ⟨finished, congrArg Pool.shared (law.2 finished).1⟩

end KeyOperation

end Ember.Database
