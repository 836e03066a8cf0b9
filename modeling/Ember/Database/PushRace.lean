import Ember.Database.Lists
import Mathlib.Data.List.Perm.Basic

/-!
# Pushes to one key

A push that finds a list extends it under the lock of its entry.  A push that finds
nothing writes a list of its own with a second call, and this call replaces whatever
has been stored since.  The values that are lost in a run are exactly the items of the
lists that are replaced in this way.
-/

namespace Ember.Database

open Ember.Base

/-- The push operations. -/
inductive Push where
  | lpush (values : List RedisObject)
  | rpush (values : List RedisObject)

namespace Push

/-- The values that are pushed. -/
def values : Push → List RedisObject
  | lpush values | rpush values => values

/-- The list a push stores under a missing key. -/
def fresh : Push → List RedisObject
  | lpush values => values.reverse
  | rpush values => values

/-- What a push makes of an existing list. -/
def update : Push → List RedisObject → List RedisObject
  | lpush values => fun list => values ++ list
  | rpush values => fun list => list ++ values

/-- The calls of a push. -/
def prog (key : String) : Push → DbProg (Outcome String Unit)
  | lpush values => DB.lpush key values
  | rpush values => DB.rpush key values

theorem prog_eq_push (key : String) (push : Push) :
    push.prog key = DB.push key push.fresh push.update := by
  cases push <;> rfl

theorem fresh_perm (push : Push) : push.fresh.Perm push.values := by
  cases push with
  | lpush values => exact List.reverse_perm values
  | rpush values => exact List.Perm.refl values

theorem update_perm (push : Push) (list : List RedisObject) :
    (push.update list).Perm (list ++ push.values) := by
  cases push with
  | lpush values => exact List.perm_append_comm
  | rpush values => exact List.Perm.refl _

end Push

namespace PushRace

/-- The pushes as the threads of a pool. -/
def race (db : DB) (key : String) (pushes : List Push) :
    Pool DB Call Call.Response (Outcome String Unit) :=
  ⟨db, pushes.map (Push.prog key)⟩

/-- The turn stores a new list in the place of one that has items. -/
def Overwrites (key : String) (pool : Pool DB Call Call.Response (Outcome String Unit))
    (turn : ℕ × Env) : Prop :=
  pool.shared.items key ≠ [] ∧
    ∃ value, pool.threads[turn.1]?.bind Prog.nextOp = some (.dataInsert key value)

/-- No turn of a schedule stores a new list in the place of one that has items. -/
def NeverOverwrites (key : String) (pool : Pool DB Call Call.Response (Outcome String Unit)) :
    List (ℕ × Env) → Prop
  | [] => True
  | turn :: rest => ¬Overwrites key pool turn ∧ NeverOverwrites key (pool.turn Call.step turn) rest

/-! ## The stages of a push -/

/-- How far a push has come. -/
inductive Status where
  | waiting
  | inserting
  | done

variable {key : String}

/-- What is left of a push. -/
def thread (key : String) : Push × Status → DbProg (Outcome String Unit)
  | (push, .waiting) => push.prog key
  | (push, .inserting) => do
      perform (.dataInsert key (.list push.fresh))
      return .ok ()
  | (_, .done) => return .ok ()

/-- The values that a push has not stored yet. -/
def owed : Push × Status → List RedisObject
  | (push, .waiting) | (push, .inserting) => push.values
  | (_, .done) => []

/-- The stored and the owed values. -/
def total (key : String) (db : DB) (pushers : List (Push × Status)) : List RedisObject :=
  db.items key ++ pushers.flatMap owed

theorem step_getMut_of_none {db : DB} (missing : db.data.lookup key = none) (env : Env)
    (update : RedisObject → Outcome String RedisObject) :
    Call.step env (.dataGetMut key update) db = (none, db) := by
  simp only [Call.step, missing]

theorem step_getMut_of_list {db : DB} {items : List RedisObject}
    (found : db.data.lookup key = some (.list items)) (env : Env)
    (update : List RedisObject → List RedisObject) :
    Call.step env (.dataGetMut key (DB.extendList update)) db =
      (some (.ok ()), db.putList key (update items)) := by
  simp only [Call.step, found, DB.extendList, DB.putList]

/-- The call of a push and what it does to the entry of the key.  The values lost
are the items of a list that is replaced. -/
theorem thread_step {pusher : Push × Status} {op : Call}
    {next : op.Response → DbProg (Outcome String Unit)}
    (here : thread key pusher = .call op next) (env : Env) {db : DB} (list : db.HoldsList key) :
    ∃ status, next (op.step env db).1 = thread key (pusher.1, status) ∧
      (op.step env db).2.HoldsList key ∧
      ∃ lost, (db.items key ++ owed pusher).Perm
          ((op.step env db).2.items key ++ owed (pusher.1, status) ++ lost) ∧
        (lost = [] ↔ ¬(db.items key ≠ [] ∧ ∃ value, op = .dataInsert key value)) := by
  rcases pusher with ⟨push, _ | _ | _⟩
  · -- The push looks for a list to extend.
    rw [thread, push.prog_eq_push] at here
    cases here
    rcases found : db.data.lookup key with _ | text | items
    · rw [step_getMut_of_none found]
      refine ⟨.inserting, rfl, list, [], ?_, ?_⟩
      · rw [List.append_nil]
        exact List.Perm.refl _
      · exact iff_of_true rfl nofun
    · exact absurd found (list text)
    · rw [step_getMut_of_list found]
      refine ⟨.done, rfl, db.holdsList_putList key _, [], ?_, ?_⟩
      · rw [DB.items_putList, DB.items_of_list found, owed, owed, List.append_nil, List.append_nil]
        exact (push.update_perm items).symm
      · exact iff_of_true rfl nofun
  · -- The push stores its own list, whatever is there.
    cases here
    refine ⟨.done, rfl, db.holdsList_putList key _, db.items key, ?_, ?_⟩
    · change List.Perm _ ((db.putList key push.fresh).items key ++ [] ++ db.items key)
      rw [DB.items_putList, List.append_nil]
      exact List.perm_append_comm.trans (push.fresh_perm.symm.append_right _)
    · simp
  · cases here

/-! ## Turns and runs -/

/-- The threads of the pool are the given pushes. -/
structure Stages (key : String) (pushers : List (Push × Status))
    (pool : Pool DB Call Call.Response (Outcome String Unit)) : Prop where
  threads : pool.threads = pushers.map (thread key)
  list : pool.shared.HoldsList key

variable {pool : Pool DB Call Call.Response (Outcome String Unit)}
  {pushers : List (Push × Status)}

/-- A turn loses the items of a list that it replaces, and nothing else. -/
theorem Stages.turn (stages : Stages key pushers pool) (turn : ℕ × Env) :
    ∃ pushers', Stages key pushers' (pool.turn Call.step turn) ∧
      ∃ lost, (total key pool.shared pushers).Perm
          (total key (pool.turn Call.step turn).shared pushers' ++ lost) ∧
        (lost = [] ↔ ¬Overwrites key pool turn) := by
  rcases Pool.turn_stages Call.step stages.threads turn with
    ⟨same, idle⟩ | ⟨before, pusher, after, op, next, rfl, here, -, call, made⟩
  · rw [same]
    refine ⟨pushers, stages, [], ?_, ?_⟩
    · rw [List.append_nil]
    · apply iff_of_true rfl
      rintro ⟨-, value, insertion⟩
      cases idle.symm.trans insertion
  · rcases thread_step here turn.2 stages.list with ⟨status, left, list, lost, perm, lossless⟩
    refine ⟨before ++ (pusher.1, status) :: after, ⟨?_, ?_⟩, lost, ?_, ?_⟩
    · rw [made, left, List.map_append, List.map_cons]
    · rw [made]
      exact list
    · rw [made, List.perm_iff_count]
      intro value
      have same := perm.count_eq value
      simp only [total, List.flatMap_append, List.flatMap_cons, List.count_append] at same ⊢
      omega
    · rw [lossless, Overwrites, call]
      simp only [Option.some.injEq]

/-- A run loses nothing if and only if it never replaces a list that has items. -/
theorem Stages.run (stages : Stages key pushers pool) (schedule : List (ℕ × Env)) :
    ∃ pushers', Stages key pushers' (pool.run Call.step schedule) ∧
      ∃ lost, (total key pool.shared pushers).Perm
          (total key (pool.run Call.step schedule).shared pushers' ++ lost) ∧
        (lost = [] ↔ NeverOverwrites key pool schedule) := by
  induction schedule generalizing pool pushers with
  | nil =>
      refine ⟨pushers, stages, [], ?_, iff_of_true rfl trivial⟩
      rw [List.append_nil]
      exact List.Perm.refl _
  | cons turn rest ih =>
      rcases stages.turn turn with ⟨middle, stages', lost, perm, lossless⟩
      rcases ih stages' with ⟨last, stages'', lost', perm', lossless'⟩
      refine ⟨last, stages'', lost' ++ lost, ?_, ?_⟩
      · rw [← List.append_assoc]
        exact perm.trans (perm'.append_right lost)
      · rw [List.append_eq_nil_iff, lossless, lossless', and_comm]
        rfl

theorem done_of_finished {pusher : Push × Status} (finished : (thread key pusher).Finished) :
    pusher.2 = .done := by
  rcases pusher with ⟨push, _ | _ | _⟩
  · rw [thread, push.prog_eq_push] at finished
    exact finished.elim
  · exact finished.elim
  · rfl

/-! ## A key that is bound -/

/-- The key is bound to a list, and every push has yet to look at it or has
returned. -/
def Settled (key : String) (pool : Pool DB Call Call.Response (Outcome String Unit)) : Prop :=
  (∃ items, pool.shared.data.lookup key = some (.list items)) ∧
    ∀ thread ∈ pool.threads, thread = .ret (.ok ()) ∨ ∃ push, thread = Push.prog key push

theorem Settled.turn (settled : Settled key pool) (turn : ℕ × Env) :
    ¬Overwrites key pool turn ∧ Settled key (pool.turn Call.step turn) := by
  rcases settled with ⟨⟨items, found⟩, stages⟩
  rcases pool.turn_split Call.step turn with
    ⟨same, idle⟩ | ⟨before, op, next, after, threads, -, call, made⟩
  · rw [same]
    constructor
    · rintro ⟨-, value, insertion⟩
      cases idle.symm.trans insertion
    · exact ⟨⟨items, found⟩, stages⟩
  · rw [threads] at stages
    rcases stages _ (List.mem_append_right _ List.mem_cons_self) with returned | ⟨push, here⟩
    · cases returned
    · rw [push.prog_eq_push] at here
      cases here
      constructor
      · rintro ⟨-, value, insertion⟩
        cases call.symm.trans insertion
      · rw [made, step_getMut_of_list found]
        constructor
        · exact ⟨_, pool.shared.lookup_putList key _⟩
        · exact Pool.forall_mem_replace stages (Or.inl rfl)

theorem Settled.neverOverwrites (settled : Settled key pool) (schedule : List (ℕ × Env)) :
    NeverOverwrites key pool schedule := by
  induction schedule generalizing pool with
  | nil => exact trivial
  | cons turn rest ih =>
      have next := settled.turn turn
      exact ⟨next.1, ih next.2⟩

/-! ## The result -/

/-- Any pushes to a key that is unbound or bound to a list, interleaved in any way:
all of them return Ok, and the list they leave has every initial and every pushed value
as often as it was there or was pushed if and only if no turn stored a new list in the
place of one that has items.  No turn does when the key was bound from the start. -/
theorem pushes_kept_iff (db : DB) (key : String) (list : db.HoldsList key) (pushes : List Push)
    (schedule : List (ℕ × Env))
    (finished : ((race db key pushes).run Call.step schedule).Finished) :
    let final := (race db key pushes).run Call.step schedule
    (∀ thread ∈ final.threads, thread = .ret (.ok ())) ∧
      ((final.shared.items key).Perm (db.items key ++ pushes.flatMap Push.values) ↔
        NeverOverwrites key (race db key pushes) schedule) ∧
      (db.data.lookup key ≠ none → NeverOverwrites key (race db key pushes) schedule) := by
  have start : Stages key (pushes.map fun push => (push, .waiting)) (race db key pushes) := by
    constructor
    · rw [List.map_map]
      rfl
    · exact list
  have before : total key db (pushes.map fun push => (push, .waiting)) =
      db.items key ++ pushes.flatMap Push.values := by
    rw [total, List.flatMap_map]
    rfl
  rcases start.run schedule with ⟨pushers, stages, lost, perm, lossless⟩
  have done : ∀ pusher ∈ pushers, pusher.2 = .done := by
    intro pusher member
    apply done_of_finished
    apply finished
    rw [stages.threads]
    exact List.mem_map_of_mem member
  have after : total key (Pool.run Call.step (race db key pushes) schedule).shared pushers =
      (Pool.run Call.step (race db key pushes) schedule).shared.items key := by
    rw [total, List.flatMap_eq_nil_iff.mpr, List.append_nil]
    rintro ⟨push, status⟩ member
    cases done _ member
    rfl
  refine ⟨fun thread member => ?_, ?_, ?_⟩
  · rw [stages.threads] at member
    rcases List.mem_map.mp member with ⟨⟨push, status⟩, inside, rfl⟩
    cases done _ inside
    rfl
  · change (total key db _).Perm _ at perm
    rw [before, after] at perm
    rw [← lossless]
    constructor
    · intro kept
      have lengths := (kept.trans perm).length_eq
      rw [List.length_append] at lengths
      exact List.length_eq_zero_iff.mp (Nat.left_eq_add.mp lengths)
    · rintro rfl
      rw [List.append_nil] at perm
      exact perm.symm
  · intro bound
    apply Settled.neverOverwrites
    constructor
    · rcases found : db.data.lookup key with _ | text | items
      · exact absurd found bound
      · exact absurd found (list text)
      · exact ⟨items, found⟩
    · intro thread member
      rcases List.mem_map.mp member with ⟨push, -, rfl⟩
      exact Or.inr ⟨push, rfl⟩

/-- Pushes to both ends of an existing list. -/
theorem pushes_kept_iff_bound :
    let db : DB := ⟨FiniteMap.ofList [("k", .list [.string "a"])], ∅⟩
    let pushes := [Push.lpush [.string "b"], Push.rpush [.string "c"]]
    let final := (race db "k" pushes).run Call.step [(1, Env.at 0), (0, Env.at 0)]
    final.Finished ∧
      (final.shared.items "k").Perm (db.items "k" ++ [.string "b", .string "c"]) := by
  intro db pushes final
  have finished : final.Finished := by decide
  have list : db.HoldsList "k" := nofun
  have law := pushes_kept_iff db "k" list pushes _ finished
  exact ⟨finished, law.2.1.mpr (law.2.2 nofun)⟩

/-- Two pushes that both find the key unbound: both return Ok, and one value is gone. -/
theorem push_lost_to_push :
    let pushes := [Push.rpush [.string "a"], Push.rpush [.string "b"]]
    let final := (race DB.newInMemory "k" pushes).run Call.step
      [(0, Env.at 0), (1, Env.at 0), (0, Env.at 0), (1, Env.at 0)]
    final.threads = [.ret (.ok ()), .ret (.ok ())] ∧
      final.shared.items "k" = [.string "b"] ∧
        ¬(final.shared.items "k").Perm [.string "a", .string "b"] := by
  exact ⟨rfl, rfl, by decide⟩

end PushRace

end Ember.Database
