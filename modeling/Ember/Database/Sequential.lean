import Ember.Database.Core

/-!
# Operations that run alone

The result and the effect of each operation when no other task interferes, and
what the cleanup paths can do to the maps: a key is left alone, or it was expired
and disappears from both.
-/

namespace Ember.Database

open Ember.Base

universe u

namespace DB

/-- The deadline of a key lies before `now`. -/
def expired (db : DB) (now : Instant) (key : String) : Bool :=
  (db.expirations.lookup key).any (· < now)

/-- The value of a key as a reader at `now` sees it. -/
def visible (db : DB) (now : Instant) (key : String) : Option RedisObject :=
  if db.expired now key then none else db.data.lookup key

/-- The maps without a key. -/
def evict (db : DB) (key : String) : DB :=
  ⟨db.data.erase key, db.expirations.erase key⟩

/-- The maps after a reader at `now` has looked at a key. -/
def settle (db : DB) (now : Instant) (key : String) : DB :=
  if db.expired now key then db.evict key else db

/-- The maps after a key was bound to a value and a deadline, if any. -/
def bindKey (db : DB) (key : String) (value : RedisObject) : Option Instant → DB
  | none => ⟨db.data.insert key value, db.expirations.erase key⟩
  | some deadline =>
      ⟨db.data.insert key value, (db.expirations.erase key).insert key deadline⟩

theorem expired_eq_true_iff {db : DB} {now : Instant} {key : String} :
    db.expired now key = true ↔ ∃ deadline, db.expirations.lookup key = some deadline ∧
      deadline < now := by
  simp [expired, Option.any_eq_true]

theorem expired_mono {db : DB} {early late : Instant} (later : early ≤ late) {key : String}
    (passed : db.expired early key = true) : db.expired late key = true := by
  rcases expired_eq_true_iff.mp passed with ⟨deadline, found, before⟩
  exact expired_eq_true_iff.mpr ⟨deadline, found, before.trans_le later⟩

theorem visible_eq_some_iff {db : DB} {now : Instant} {key : String} {value : RedisObject} :
    db.visible now key = some value ↔
      ¬db.expired now key = true ∧ db.data.lookup key = some value := by
  unfold visible
  split
  next passed => exact iff_of_false nofun fun both => both.1 passed
  next live => exact ⟨fun found => ⟨live, found⟩, And.right⟩

section Lookup

variable (db : DB) (key key' : String)

@[simp]
theorem lookup_evict_data :
    (db.evict key).data.lookup key' = if key' = key then none else db.data.lookup key' :=
  FiniteMap.lookup_erase_if db.data key key'

@[simp]
theorem lookup_evict_expirations :
    (db.evict key).expirations.lookup key' =
      if key' = key then none else db.expirations.lookup key' :=
  FiniteMap.lookup_erase_if db.expirations key key'

@[simp]
theorem lookup_bindKey_data (value : RedisObject) (deadline : Option Instant) :
    (db.bindKey key value deadline).data.lookup key' =
      if key' = key then some value else db.data.lookup key' := by
  cases deadline <;> exact FiniteMap.lookup_insert_if db.data key key' value

@[simp]
theorem lookup_bindKey_expirations (value : RedisObject) (deadline : Option Instant) :
    (db.bindKey key value deadline).expirations.lookup key' =
      if key' = key then deadline else db.expirations.lookup key' := by
  cases deadline with
  | none => exact FiniteMap.lookup_erase_if db.expirations key key'
  | some deadline =>
      rw [bindKey, FiniteMap.lookup_insert_if, FiniteMap.lookup_erase_if]
      split <;> rfl

theorem visible_evict (now : Instant) :
    (db.evict key).visible now key' = if key' = key then none else db.visible now key' := by
  unfold visible expired
  rw [lookup_evict_data, lookup_evict_expirations]
  split <;> simp

theorem visible_bindKey (now : Instant) (value : RedisObject) (deadline : Option Instant) :
    (db.bindKey key value deadline).visible now key' =
      if key' = key then (if deadline.any (· < now) then none else some value)
      else db.visible now key' := by
  unfold visible expired
  rw [lookup_bindKey_data, lookup_bindKey_expirations]
  split <;> rfl

end Lookup

/-! ## Results and effects -/

/-- An operation that runs alone at time `now`. -/
def exec {α : Type u} (now : Instant) (prog : DbProg α) (db : DB) : α × DB :=
  prog.run (Call.step (Env.at now)) db

section Exec

variable (db : DB) (now : Instant) (key : String)

theorem exec_set (value : RedisObject) (expiresAt : Option Instant) :
    exec now (set key value expiresAt) db = (.ok (), db.bindKey key value expiresAt) := by
  cases expiresAt <;> rfl

theorem exec_delete : exec now (delete key) db = (.ok (), db.evict key) :=
  rfl

theorem exec_lazyExpiration :
    exec now (lazyExpiration key) db = (db.expired now key, db.settle now key) := by
  unfold exec lazyExpiration settle expired
  cases found : db.expirations.lookup key with
  | none => simp [Prog.perform, Call.step, found]
  | some deadline =>
      by_cases passed : deadline < now <;>
        simp [Prog.perform, Call.step, found, passed, Env.at, evict]

/-- What `get` answers about a visible value. -/
def getReply (value : Option RedisObject) : Outcome String RedisObject :=
  .ok (value.getD nil)

/-- What `lrange` answers about a visible value. -/
def lrangeReply (target : Target) (start stop : Int32) :
    Option RedisObject → Outcome String RedisObject
  | none => .ok nil
  | some (.list list) => .list <$> range target start stop list
  | some (.string _) => .error "Wrong type. Expected list."

theorem exec_bind {α β : Type u} (prog : DbProg α) (f : α → DbProg β) :
    exec now (prog >>= f) db =
      exec now (f (exec now prog db).1) (exec now prog db).2 :=
  Prog.run_bind prog f db

theorem exec_get :
    exec now (get key) db = (getReply (db.visible now key), db.settle now key) := by
  rw [get, exec_bind, exec_lazyExpiration, visible, settle]
  cases db.expired now key with
  | true => rfl
  | false =>
      simp only [exec, Prog.perform, Call.step, Prog.call_bind, Prog.run_call, Bool.false_eq_true,
        if_false]
      cases db.data.lookup key <;> rfl

theorem exec_lrange (target : Target) (start stop : Int32) :
    exec now (lrange target key start stop) db =
      (lrangeReply target start stop (db.visible now key), db.settle now key) := by
  rw [lrange, exec_bind, exec_lazyExpiration, visible, settle]
  cases db.expired now key with
  | true => rfl
  | false =>
      simp only [exec, Prog.perform, Call.step, Prog.call_bind, Prog.run_call, Bool.false_eq_true,
        if_false]
      cases db.data.lookup key with
      | none => rfl
      | some value => cases value <;> rfl

/-- The value a push leaves, given the one it finds. -/
def pushed (fresh : List RedisObject) (update : List RedisObject → List RedisObject) :
    Option RedisObject → Outcome String RedisObject
  | none => .ok (.list fresh)
  | some value => extendList update value

/-- The outcome of an operation that stores a value when it can compute one. -/
def store : Outcome String RedisObject → Outcome String Unit × DB
  | .ok value => (.ok (), { db with data := db.data.insert key value })
  | .error reason => (.error reason, db)
  | .panic => (.panic, db)

theorem store_expirations (value : Outcome String RedisObject) :
    (db.store key value).2.expirations = db.expirations := by
  cases value <;> rfl

theorem exec_push (fresh : List RedisObject) (update : List RedisObject → List RedisObject) :
    exec now (push key fresh update) db =
      db.store key (pushed fresh update (db.data.lookup key)) := by
  simp only [exec, push, Prog.perform, Prog.call_bind, Prog.run_call, Call.step]
  cases db.data.lookup key with
  | none => rfl
  | some value => cases value <;> rfl

/-- Whether EXPIRE replaces the deadline it finds. -/
def replacesDeadline (expiresAt : Instant) (option : Option String) (current : Option Instant) :
    Option Bool :=
  match option with
  | none => some true
  | some opt =>
      if opt = "NX" then some !current.isSome
      else if opt = "XX" then some current.isSome
      else if opt = "GT" then some (current.any (· < expiresAt))
      else if opt = "LT" then some (current.any (expiresAt < ·))
      else none

theorem exec_updateExpiry (expiresAt : Instant) (option : Option String) :
    exec now (updateExpiry key expiresAt option) db =
      (replacesDeadline expiresAt option (db.expirations.lookup key), db) := by
  cases option with
  | none => rfl
  | some opt =>
      simp only [exec, updateExpiry, replacesDeadline]
      split_ifs <;> rfl

theorem exec_expire (expiresAt : Instant) (option : Option String) :
    exec now (expire key expiresAt option) db =
      if (db.data.lookup key).isSome then
        match replacesDeadline expiresAt option (db.expirations.lookup key) with
        | some true => (.ok (), { db with expirations := db.expirations.insert key expiresAt })
        | some false => (.ok (), db)
        | none => (.error "Invalid option for expire command.", db)
      else
        (.error "Entry not found.", db) := by
  simp only [expire, Prog.perform_bind]
  change exec now (if (db.data.lookup key).isSome then _ else _) db = _
  split
  · rw [exec_bind, exec_updateExpiry]
    split <;> simp_all [exec, Call.step]
  · rfl

end Exec

/-! ## Cleanup -/

/-- The difference the cleanup paths can make by time `now`: a key is untouched,
or it was expired and is gone from both maps. -/
def Reaped (now : Instant) (db db' : DB) : Prop :=
  ∀ key, (db'.data.lookup key = db.data.lookup key ∧
      db'.expirations.lookup key = db.expirations.lookup key) ∨
    (db.expired now key = true ∧ db'.data.lookup key = none ∧
      db'.expirations.lookup key = none)

namespace Reaped

variable {now early late : Instant} {db db' db'' : DB}

theorem refl (now : Instant) (db : DB) : Reaped now db db :=
  fun _ => Or.inl ⟨rfl, rfl⟩

theorem trans (first : Reaped now db db') (second : Reaped now db' db'') :
    Reaped now db db'' := by
  intro key
  rcases second key with ⟨data, deadline⟩ | ⟨passed, data, deadline⟩
  · rw [data, deadline]
    exact first key
  · rcases first key with ⟨data', deadline'⟩ | ⟨-, -, deadline'⟩
    · refine Or.inr ⟨?_, data, deadline⟩
      rwa [expired, ← deadline']
    · simp [expired, deadline'] at passed

theorem mono (later : early ≤ late) (reaped : Reaped early db db') : Reaped late db db' := by
  intro key
  rcases reaped key with same | ⟨passed, gone⟩
  · exact Or.inl same
  · exact Or.inr ⟨expired_mono later passed, gone⟩

theorem evict {key : String} (passed : db.expired now key = true) :
    Reaped now db (db.evict key) := by
  intro key'
  by_cases same : key' = key
  · exact Or.inr (by simp [same, passed])
  · exact Or.inl (by simp [same])

theorem settle (now : Instant) (db : DB) (key : String) : Reaped now db (db.settle now key) := by
  unfold DB.settle
  split
  next passed => exact Reaped.evict passed
  next => exact Reaped.refl now db

theorem lookup_of_some (reaped : Reaped now db db') {key : String} {value : RedisObject}
    (found : db'.data.lookup key = some value) : db.data.lookup key = some value := by
  rcases reaped key with ⟨same, -⟩ | ⟨-, gone, -⟩
  · rwa [← same]
  · rw [gone] at found
    cases found

theorem deadline_of_some (reaped : Reaped now db db') {key : String} {deadline : Instant}
    (found : db'.expirations.lookup key = some deadline) :
    db.expirations.lookup key = some deadline := by
  rcases reaped key with ⟨-, same⟩ | ⟨-, -, gone⟩
  · rwa [← same]
  · rw [gone] at found
    cases found

/-- No reader can tell that expired keys were removed. -/
theorem visible_eq (reaped : Reaped early db db') (later : early ≤ now) (key : String) :
    db'.visible now key = db.visible now key := by
  rcases reaped key with ⟨data, deadline⟩ | ⟨passed, data, deadline⟩
  · rw [visible, visible, expired, expired, data, deadline]
  · rw [visible, visible, if_pos (expired_mono later passed), data, ite_self]

end Reaped

/-- The maps together with the answers the environment will give to the calls of
the one task that runs. -/
structure World where
  db : DB
  envs : ℕ → Env

/-- A call in the next environment. -/
def World.step (op : Call) (world : World) : op.Response × World :=
  ((op.step (world.envs 0) world.db).1,
    ⟨(op.step (world.envs 0) world.db).2, fun i => world.envs (i + 1)⟩)

/-- What holds of every environment holds of those left after a run. -/
theorem World.run_envs {P : Env → Prop} {α : Type} (prog : DbProg α) {world : World}
    (all : ∀ i, P (world.envs i)) (i : ℕ) : P ((prog.run World.step world).2.envs i) := by
  induction prog generalizing world with
  | ret value => exact all i
  | call op next ih => exact ih _ fun j => all (j + 1)

theorem reapSample_reaped (now : Instant) (keys : List String) (count : ℕ) (world : World) :
    Reaped now world.db ((reapSample now keys count).run World.step world).2.db := by
  induction keys generalizing count world with
  | nil => exact Reaped.refl now world.db
  | cons key rest ih =>
      rw [reapSample, Prog.perform_bind, Prog.run_call]
      -- The sampled key is looked up again before anything is removed.
      cases found : (World.step (.expirationsGet key) world).1 with
      | none => exact ih count _
      | some deadline =>
          dsimp only
          split
          next passed =>
            have gone : Reaped now world.db (world.db.evict key) :=
              Reaped.evict (expired_eq_true_iff.mpr ⟨deadline, found, passed⟩)
            exact gone.trans (ih (count + 1) ⟨world.db.evict key, fun i => world.envs (i + 3)⟩)
          next => exact ih count _

theorem activeExpirationPass_reaped (world : World) :
    Reaped (world.envs 0).now world.db (activeExpirationPass.run World.step world).2.db := by
  simp only [activeExpirationPass, Prog.perform_bind, Prog.run_call]
  split
  · exact Reaped.refl _ _
  · simp only [Prog.run_call, Prog.run_bind]
    exact reapSample_reaped _ _ _ _

/-- However often the cleanup cycle repeats itself, it removes only keys that
are expired at its latest clock reading. -/
theorem activeExpirationCycle_reaped (fuel : ℕ) {now : Instant} (world : World)
    (readings : ∀ i, (world.envs i).now ≤ now) :
    Reaped now world.db ((activeExpirationCycle fuel).run World.step world).2.db := by
  induction fuel generalizing world with
  | zero => exact Reaped.refl _ _
  | succ fuel ih =>
      rw [activeExpirationCycle, Prog.run_bind]
      have pass := (activeExpirationPass_reaped world).mono (readings 0)
      have left := World.run_envs (P := fun env => env.now ≤ now) activeExpirationPass readings
      split
      · exact pass.trans (ih _ left)
      · exact pass

end DB

/-- One run of the cleanup cycle: the environments of its calls, whose clock
readings lie in a window of time. -/
structure CleanupRun where
  fuel : ℕ
  envs : ℕ → Env
  start : Instant
  stop : Instant
  ordered : start ≤ stop
  readings : ∀ i, (envs i).now ≤ stop

/-- The maps after a run of the cleanup cycle that nobody interferes with. -/
def DB.cleanup (db : DB) (run : CleanupRun) : DB :=
  ((activeExpirationCycle run.fuel).run World.step ⟨db, run.envs⟩).2.db

theorem DB.cleanup_reaped (db : DB) (run : CleanupRun) : Reaped run.stop db (db.cleanup run) :=
  activeExpirationCycle_reaped run.fuel ⟨db, run.envs⟩ run.readings

end Ember.Database
