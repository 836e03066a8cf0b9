import Ember.Database.TtlStore

/-!
# Writes to expired keys

The readers check a key's deadline before they use it; the push operations and
EXPIRE do not.  A write at a time when the key's deadline has passed is compared
with the same write after the key was removed from both maps: the results have
to agree, and so has everything that later readers see.
-/

namespace Ember.Database

open Ember.Base

/-- The operations by which the store is observed. -/
inductive Query where
  | get (key : String)
  | lrange (key : String) (start stop : Int32)

/-- A query as an operation of the database. -/
def Query.operation : Query → Operation
  | get key => .get key
  | lrange key start stop => .lrange key start stop

/-- The operations that write to a key without looking at its deadline. -/
inductive Write where
  | lpush (values : List RedisObject)
  | rpush (values : List RedisObject)
  | expire (expiresAt : Instant) (option : Option String)

namespace Write

/-- The operation on a given key. -/
def prog (key : String) : Write → DbProg (Outcome String Unit)
  | lpush values => DB.lpush key values
  | rpush values => DB.rpush key values
  | expire expiresAt option => DB.expire key expiresAt option

/-- The write adds items to a list. -/
def Pushes : Write → Prop
  | lpush _ | rpush _ => True
  | expire _ _ => False

end Write

namespace DB

variable {target : Target} {db db' : DB} {now : Instant} {key : String}

/-- A query and its answer. -/
def query (target : Target) (db : DB) (query : Instant × Query) :
    DB × List (Outcome String RedisObject) :=
  db.operate target query.1 query.2.operation

/-- No sequence of queries from `now` on tells the two databases apart. -/
def SameToReaders (target : Target) (now : Instant) (db db' : DB) : Prop :=
  ∀ queries, InOrder (fun query : Instant × Query => (query.1, query.1)) now queries →
    outputs (query target) db queries = outputs (query target) db' queries

/-- A write at `now` has the result, and leaves the observable store, that it
would have had with the key removed from both maps first. -/
def TreatsAsAbsent (target : Target) (db : DB) (now : Instant) (key : String)
    (write : Write) : Prop :=
  (exec now (write.prog key) db).1 = (exec now (write.prog key) (db.evict key)).1 ∧
    SameToReaders target now (exec now (write.prog key) db).2
      (exec now (write.prog key) (db.evict key)).2

/-- Queries depend on the visible values only, and do not change them. -/
theorem sameToReaders_of_visible
    (same : ∀ later, now ≤ later → ∀ key, db.visible later key = db'.visible later key) :
    SameToReaders target now db db' := by
  have simulation : TimedSimulation (query target) (query target)
      (fun query : Instant × Query => (query.1, query.1)) some
      (fun now db db' => ∀ later, now ≤ later → ∀ key,
        db.visible later key = db'.visible later key) := by
    refine ⟨fun earlier same later after => same later (earlier.trans after), nofun, ?_⟩
    rintro db db' ⟨now, move⟩ _ ⟨⟩ same
    cases move with
    | get key =>
        simp only [query, Query.operation, operate, exec_get, same now le_rfl key, true_and]
        intro later after key'
        rw [(Reaped.settle now db key).visible_eq after,
          (Reaped.settle now db' key).visible_eq after, same later after]
    | lrange key start stop =>
        simp only [query, Query.operation, operate, exec_lrange, same now le_rfl key, true_and]
        intro later after key'
        rw [(Reaped.settle now db key).visible_eq after,
          (Reaped.settle now db' key).visible_eq after, same later after]
  intro queries ordered
  rw [simulation.outputs_eq ordered same, List.filterMap_some]

/-- Databases that look the same answer GET the same way. -/
theorem SameToReaders.get_eq (same : SameToReaders target now db db') (key : String) :
    getReply (db.visible now key) = getReply (db'.visible now key) := by
  have answers := same [(now, .get key)] ⟨le_rfl, trivial⟩
  simpa [outputs, query, Query.operation, operate, exec_get] using answers

theorem evict_eq_self (value : db.data.lookup key = none)
    (deadline : db.expirations.lookup key = none) : db.evict key = db := by
  rw [evict, FiniteMap.erase_eq_self value, FiniteMap.erase_eq_self deadline]

/-- A push leaves the passed deadline in place, so that what it stored is not
visible; on the removed key it starts a list that is. -/
theorem not_sameToReaders_push (passed : db.expired now key = true) (fresh : List RedisObject)
    (update : List RedisObject → List RedisObject) :
    ¬SameToReaders target now (exec now (push key fresh update) db).2
      (exec now (push key fresh update) (db.evict key)).2 := by
  intro same
  have answers := same.get_eq key
  rw [exec_push, exec_push, visible, expired, store_expirations,
    if_pos (show (db.expirations.lookup key).any (· < now) = true from passed),
    visible, expired, store_expirations, lookup_evict_expirations, lookup_evict_data] at answers
  simp [pushed, store, getReply, nil] at answers

/-- EXPIRE answers "Entry not found." exactly when the key has no value. -/
theorem exec_expire_eq_notFound_iff (expiresAt : Instant) (option : Option String) :
    (exec now (expire key expiresAt option) db).1 = .error "Entry not found." ↔
      db.data.lookup key = none := by
  rw [exec_expire]
  cases db.data.lookup key with
  | none => simp
  | some value =>
      simp only [Option.isSome_some, if_true]
      split <;> simp

/-- Which writes treat a key as absent whose deadline has passed, whether or not
some cleanup path has removed it by then: none while the key has a value, and a
push not even while only the deadline is left. -/
theorem treatsAsAbsent_iff (target : Target) (db : DB) (now : Instant) (key : String)
    (write : Write)
    (passed : db.expired now key = true ∨
      db.data.lookup key = none ∧ db.expirations.lookup key = none) :
    TreatsAsAbsent target db now key write ↔
      db.data.lookup key = none ∧ (write.Pushes → db.expirations.lookup key = none) := by
  rcases passed with passed | ⟨value, deadline⟩
  · cases write with
    | lpush values =>
        apply iff_of_false (fun same => not_sameToReaders_push passed _ _ same.2)
        rintro ⟨-, removed⟩
        simp [expired, removed trivial] at passed
    | rpush values =>
        apply iff_of_false (fun same => not_sameToReaders_push passed _ _ same.2)
        rintro ⟨-, removed⟩
        simp [expired, removed trivial] at passed
    | expire expiresAt option =>
        have ideal : (exec now (expire key expiresAt option) (db.evict key)).1 =
            .error "Entry not found." := by
          rw [exec_expire_eq_notFound_iff, lookup_evict_data, if_pos rfl]
        constructor
        · rintro ⟨result, -⟩
          refine ⟨?_, False.elim⟩
          rw [← exec_expire_eq_notFound_iff expiresAt option]
          exact result.trans ideal
        · rintro ⟨value, -⟩
          constructor
          · exact ((exec_expire_eq_notFound_iff expiresAt option).mpr value).trans ideal.symm
          · simp only [Write.prog, exec_expire, value, lookup_evict_data, if_true]
            exact sameToReaders_of_visible fun later after key' =>
              ((Reaped.evict passed).visible_eq after key').symm
  · refine iff_of_true ?_ ⟨value, fun _ => deadline⟩
    rw [TreatsAsAbsent, evict_eq_self value deadline]
    exact ⟨rfl, fun _ _ => rfl⟩

/-- A key whose list expired and was then reaped is absent to every write. -/
theorem treatsAsAbsent_iff_reaped :
    let db := (exec 6 (get "k") (exec 0 (expire "k" 5 none)
      (exec 0 (rpush "k" [.string "a"]) newInMemory).2).2).2
    TreatsAsAbsent ⟨true, 24⟩ db 6 "k" (.rpush [.string "b"]) :=
  (treatsAsAbsent_iff ⟨true, 24⟩ _ 6 "k" (.rpush [.string "b"])
    (Or.inr ⟨by decide, by decide⟩)).mpr ⟨by decide, fun _ => by decide⟩

/-- A list of one item with a deadline at 5.  At 6 a push reports success and
stores an item that a GET does not find, and EXPIRE brings the old item back. -/
theorem writes_ignore_passed_deadline :
    let db := (exec 0 (expire "k" 5 none) (exec 0 (rpush "k" [.string "a"]) newInMemory).2).2
    ¬TreatsAsAbsent ⟨true, 24⟩ db 6 "k" (.lpush [.string "b"]) ∧
      ¬TreatsAsAbsent ⟨true, 24⟩ db 6 "k" (.rpush [.string "b"]) ∧
        ¬TreatsAsAbsent ⟨true, 24⟩ db 6 "k" (.expire 100 none) := by
  refine ⟨fun same => ?_, fun same => ?_, fun same => ?_⟩
  · exact absurd (same.2.get_eq "k") (by decide)
  · exact absurd (same.2.get_eq "k") (by decide)
  · exact absurd same.1 (by decide)

end DB

end Ember.Database
