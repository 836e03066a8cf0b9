import Ember.Database.Core

/-!
# Snapshots

A save reads the entries of the two maps one after the other, while other tasks change
them.  What it captures is the store at one moment if, up to that moment, nothing is
changed that it has read and, from there on, nothing that it has yet to read.
-/

namespace Ember.Database

open Ember.Base

/-- A place in one of the two maps. -/
inductive Slot where
  | data (key : String)
  | deadline (key : String)
  deriving DecidableEq

namespace DB

/-- What a place holds, if anything. -/
def look (db : DB) : Slot → Option (RedisObject ⊕ Instant)
  | .data key => (db.data.lookup key).map Sum.inl
  | .deadline key => (db.expirations.lookup key).map Sum.inr

theorem ext_look {db db' : DB} (same : ∀ slot, db.look slot = db'.look slot) : db = db' := by
  have data : db.data = db'.data := by
    apply Finmap.ext_lookup
    intro key
    exact Option.map_injective Sum.inl_injective (same (.data key))
  have expirations : db.expirations = db'.expirations := by
    apply Finmap.ext_lookup
    intro key
    exact Option.map_injective Sum.inr_injective (same (.deadline key))
  cases db
  cases db'
  rw [DB.mk.injEq]
  exact ⟨data, expirations⟩

/-- The iterations over the maps: the places that they come to are read one at a time,
and the entries found there collected. -/
def collect : List Slot → DB → DbProg DB
  | [], found => return found
  | .data key :: rest, found => do
      match ← perform (.dataGet key) with
      | some value => collect rest { found with data := found.data.insert key value }
      | none => collect rest found
  | .deadline key :: rest, found => do
      match ← perform (.expirationsGet key) with
      | some deadline =>
          collect rest { found with expirations := found.expirations.insert key deadline }
      | none => collect rest found

/-- The places of the two maps in the orders in which they are iterated. -/
def slots (dataKeys expirationKeys : List String) : List Slot :=
  dataKeys.map .data ++ expirationKeys.map .deadline

/-- The part of a save that reads the maps: first the data, then the deadlines. -/
def saveRdb (dataKeys expirationKeys : List String) : DbProg DB :=
  collect (slots dataKeys expirationKeys) ⟨∅, ∅⟩

/-- A collection with what a place holds added to it. -/
def add (found db : DB) : Slot → DB
  | .data key =>
      match db.data.lookup key with
      | some value => { found with data := found.data.insert key value }
      | none => found
  | .deadline key =>
      match db.expirations.lookup key with
      | some deadline => { found with expirations := found.expirations.insert key deadline }
      | none => found

theorem add_of_look_eq_none {found db : DB} {slot : Slot} (missing : db.look slot = none) :
    found.add db slot = found := by
  cases slot with
  | data key => simp only [add, Option.map_eq_none_iff.mp missing]
  | deadline key => simp only [add, Option.map_eq_none_iff.mp missing]

theorem look_add (found db : DB) (slot other : Slot) :
    (found.add db slot).look other =
      if other = slot then (db.look slot).or (found.look slot) else found.look other := by
  cases present : db.look slot with
  | none =>
      rw [add_of_look_eq_none present, Option.none_or]
      split
      next same => rw [same]
      next => rfl
  | some content =>
      rw [Option.some_or, ← present]
      cases slot with
      | data key =>
          rcases Option.map_eq_some_iff.mp present with ⟨value, stored, -⟩
          cases other with
          | data key' =>
              simp only [add, look, stored, FiniteMap.lookup_insert_if, Slot.data.injEq]
              split <;> rfl
          | deadline key' => simp [add, look, stored]
      | deadline key =>
          rcases Option.map_eq_some_iff.mp present with ⟨deadline, stored, -⟩
          cases other with
          | data key' => simp [add, look, stored]
          | deadline key' =>
              simp only [add, look, stored, FiniteMap.lookup_insert_if, Slot.deadline.injEq]
              split <;> rfl

/-- One read of a save. -/
theorem collect_step {slot : Slot} {rest : List Slot} {found : DB} {op : Call}
    {next : op.Response → DbProg DB} (here : collect (slot :: rest) found = .call op next)
    (env : Env) (db : DB) :
    (op.step env db).2 = db ∧
      next (op.step env db).1 = collect rest (found.add db slot) := by
  cases slot with
  | data key =>
      cases here
      constructor
      · rfl
      · simp only [add, Call.step]
        cases db.data.lookup key <;> rfl
  | deadline key =>
      cases here
      constructor
      · rfl
      · simp only [add, Call.step]
        cases db.expirations.lookup key <;> rfl

/-! ## What a save has collected -/

/-- The collection holds what a store holds in the places that were read, and nothing
else. -/
def Collected (past : List Slot) (found store : DB) : Prop :=
  ∀ slot, found.look slot = if slot ∈ past then store.look slot else none

namespace Collected

variable {past : List Slot} {found store store' db : DB} {slot : Slot}

theorem visit (collected : Collected past found store) (same : db.look slot = store.look slot) :
    Collected (past ++ [slot]) (found.add db slot) store := by
  intro other
  rw [look_add, same]
  by_cases here : other = slot
  · subst here
    rw [if_pos rfl, if_pos (List.mem_append_right _ (List.mem_singleton_self other)),
      collected other]
    split
    · exact Option.or_self
    · exact Option.or_none
  · have later : other ∈ past ++ [slot] ↔ other ∈ past := by
      simp [here]
    rw [if_neg here, collected other]
    simp only [later]

theorem change (collected : Collected past found store)
    (kept : ∀ slot ∈ past, store'.look slot = store.look slot) :
    Collected past found store' := by
  intro slot
  rw [collected slot]
  split
  next inside => rw [kept slot inside]
  next => rfl

end Collected

end DB

/-! ## A save among other tasks -/

/-- A save as a task; the other tasks return nothing. -/
def saveTask (left : List Slot) (found : DB) : DbProg (Option DB) := do
  return some (← DB.collect left found)

/-- The number of places read after a turn; the save is the first thread. -/
def readsAfter (read : ℕ) (turn : ℕ × Env) : ℕ :=
  if turn.1 = 0 then read + 1 else read

/-- In no turn of a schedule does a place change that the save has read. -/
def KeepsRead (slots : List Slot) :
    ℕ → Pool DB Call Call.Response (Option DB) → List (ℕ × Env) → Prop
  | _, _, [] => True
  | read, pool, turn :: rest =>
      (∀ slot ∈ slots.take read,
        (pool.turn Call.step turn).shared.look slot = pool.shared.look slot) ∧
      KeepsRead slots (readsAfter read turn) (pool.turn Call.step turn) rest

/-- In no turn of a schedule does a place change that the save has yet to read. -/
def KeepsUnread (slots : List Slot) :
    ℕ → Pool DB Call Call.Response (Option DB) → List (ℕ × Env) → Prop
  | _, _, [] => True
  | read, pool, turn :: rest =>
      (∀ slot ∈ slots.drop read,
        (pool.turn Call.step turn).shared.look slot = pool.shared.look slot) ∧
      KeepsUnread slots (readsAfter read turn) (pool.turn Call.step turn) rest

variable {slots : List Slot} {count : ℕ} {found store : DB}
  {pool : Pool DB Call Call.Response (Option DB)}

/-- The save has read so many places and collected what a store holds there. -/
structure Saving (slots : List Slot) (count : ℕ) (found store : DB)
    (pool : Pool DB Call Call.Response (Option DB)) : Prop where
  task : pool.threads[0]? = some (saveTask (slots.drop count) found)
  collected : DB.Collected (slots.take count) found store

theorem saveTask_cons (slot : Slot) (rest : List Slot) (found : DB) :
    ∃ op next, saveTask (slot :: rest) found = .call op next ∧ ∀ env db,
      (op.step env db).2 = db ∧
        next (op.step env db).1 = saveTask rest (found.add db slot) := by
  obtain ⟨op, next, here⟩ : ∃ op next, DB.collect (slot :: rest) found = .call op next := by
    cases slot <;> exact ⟨_, _, rfl⟩
  refine ⟨op, fun answer => next answer >>= fun found => return some found, ?_, ?_⟩
  · rw [saveTask, here]
    rfl
  · intro env db
    rcases DB.collect_step here env db with ⟨reads, left⟩
    exact ⟨reads, congrArg (· >>= fun found => return some found) left⟩

/-- A turn of the save while there are places left: it reads the next one. -/
theorem Saving.visit (saving : Saving slots count found store pool) (env : Env)
    (inside : count < slots.length)
    (same : pool.shared.look slots[count] = store.look slots[count]) :
    Saving slots (count + 1) (found.add pool.shared slots[count]) store
        (pool.turn Call.step (0, env)) ∧
      (pool.turn Call.step (0, env)).shared = pool.shared := by
  have left : slots.drop count = slots[count] :: slots.drop (count + 1) :=
    List.drop_eq_getElem_cons inside
  have past : slots.take (count + 1) = slots.take count ++ [slots[count]] :=
    List.take_succ_eq_append_getElem inside
  rcases saveTask_cons slots[count] (slots.drop (count + 1)) found with ⟨op, rest, here, reads⟩
  have task := saving.task
  rw [left, here] at task
  have made : pool.turn Call.step (0, env) = _ := Pool.turn_of_call Call.step task
  rw [made]
  refine ⟨⟨?_, ?_⟩, (reads env pool.shared).1⟩
  · rw [List.getElem?_set_self (List.getElem?_eq_some_iff.mp task).1]
    exact congrArg some (reads env pool.shared).2
  · rw [past]
    exact saving.collected.visit same

/-- A turn of the save when all places have been read. -/
theorem Saving.idle (saving : Saving slots count found store pool) (env : Env)
    (beyond : slots.length ≤ count) :
    Saving slots (count + 1) found store (pool.turn Call.step (0, env)) ∧
      (pool.turn Call.step (0, env)).shared = pool.shared := by
  rcases saving with ⟨task, collected⟩
  rw [List.drop_of_length_le beyond] at task
  rw [List.take_of_length_le beyond] at collected
  have same : pool.turn Call.step (0, env) = pool := by
    simp [Pool.turn, task, saveTask, DB.collect]
  rw [same]
  refine ⟨⟨?_, ?_⟩, rfl⟩
  · rw [task, List.drop_of_length_le (Nat.le_succ_of_le beyond)]
  · rw [List.take_of_length_le (Nat.le_succ_of_le beyond)]
    exact collected

/-- A turn of the save reads the next place, and a turn of another task does not concern
it. -/
theorem Saving.turn (saving : Saving slots count found store pool) (turn : ℕ × Env)
    (next : ∀ slot, slots[count]? = some slot → turn.1 = 0 →
      pool.shared.look slot = store.look slot) :
    (∃ found', Saving slots (readsAfter count turn) found' store (pool.turn Call.step turn)) ∧
      (turn.1 = 0 → (pool.turn Call.step turn).shared = pool.shared) := by
  rcases turn with ⟨i, env⟩
  by_cases own : i = 0
  · subst own
    rw [readsAfter, if_pos rfl]
    by_cases inside : count < slots.length
    · have same := next slots[count] (List.getElem?_eq_getElem inside) rfl
      rcases saving.visit env inside same with ⟨later, unchanged⟩
      exact ⟨⟨_, later⟩, fun _ => unchanged⟩
    · rcases saving.idle env (Nat.le_of_not_lt inside) with ⟨later, unchanged⟩
      exact ⟨⟨_, later⟩, fun _ => unchanged⟩
  · rw [readsAfter, if_neg own]
    refine ⟨⟨found, ?_, saving.collected⟩, fun isOwn => absurd isOwn own⟩
    rw [Pool.turn_other own]
    exact saving.task

/-- Up to the moment: what the save has collected is what the store still holds. -/
theorem Saving.run_before {schedule : List (ℕ × Env)}
    (saving : Saving slots count found pool.shared pool)
    (kept : KeepsRead slots count pool schedule) :
    ∃ found', Saving slots (schedule.foldl readsAfter count) found'
      (pool.run Call.step schedule).shared (pool.run Call.step schedule) := by
  induction schedule generalizing count found pool with
  | nil => exact ⟨found, saving⟩
  | cons turn rest ih =>
      have unchanged := (saving.turn turn fun _ _ _ => rfl).2
      have current : Saving slots count found (pool.turn Call.step turn).shared pool :=
        ⟨saving.task, saving.collected.change kept.1⟩
      rcases (current.turn turn fun slot _ own => by rw [unchanged own]).1 with ⟨found', next⟩
      exact ih next kept.2

/-- From the moment on: what the save has yet to read is what the store held then. -/
theorem Saving.run_after {schedule : List (ℕ × Env)} (saving : Saving slots count found store pool)
    (unread : ∀ slot ∈ slots.drop count, pool.shared.look slot = store.look slot)
    (kept : KeepsUnread slots count pool schedule) :
    ∃ found', Saving slots (schedule.foldl readsAfter count) found' store
      (pool.run Call.step schedule) := by
  induction schedule generalizing count found pool with
  | nil => exact ⟨found, saving⟩
  | cons turn rest ih =>
      rcases (saving.turn turn fun slot next _ => unread slot (by
        rw [← List.head?_drop] at next
        exact List.mem_of_head? next)).1 with ⟨found', next⟩
      apply ih next _ kept.2
      intro slot later
      have still : slot ∈ slots.drop count := by
        unfold readsAfter at later
        split at later
        · rw [← List.drop_drop] at later
          exact List.mem_of_mem_drop later
        · exact later
      rw [kept.1 slot still, unread slot still]

/-- A save beside any other tasks, as the first thread. -/
def saveAmong (db : DB) (dataKeys expirationKeys : List String)
    (others : List (DbProg (Option DB))) : Pool DB Call Call.Response (Option DB) :=
  ⟨db, (do return some (← DB.saveRdb dataKeys expirationKeys)) :: others⟩

/-- If up to some moment no place changes that a save has read, and from there on none
that it has yet to read, then it captures the maps as they are at that moment, as long as
its iterations come to all entries that are there then. -/
theorem save_captures_moment (db : DB) (dataKeys expirationKeys : List String)
    (others : List (DbProg (Option DB))) (before after : List (ℕ × Env)) {captured : DB}
    (visits : ∀ slot,
      ((saveAmong db dataKeys expirationKeys others).run Call.step before).shared.look slot ≠ none →
        slot ∈ DB.slots dataKeys expirationKeys)
    (read : KeepsRead (DB.slots dataKeys expirationKeys) 0
      (saveAmong db dataKeys expirationKeys others) before)
    (unread : KeepsUnread (DB.slots dataKeys expirationKeys) (before.foldl readsAfter 0)
      ((saveAmong db dataKeys expirationKeys others).run Call.step before) after)
    (returned : ((saveAmong db dataKeys expirationKeys others).run Call.step
      (before ++ after)).threads[0]? = some (.ret (some captured))) :
    captured = ((saveAmong db dataKeys expirationKeys others).run Call.step before).shared := by
  have start : Saving (DB.slots dataKeys expirationKeys) 0 ⟨∅, ∅⟩ db
      (saveAmong db dataKeys expirationKeys others) := by
    constructor
    · rfl
    · intro slot
      rw [List.take_zero, if_neg List.not_mem_nil]
      cases slot <;> rfl
  rcases start.run_before read with ⟨early, atMoment⟩
  rcases atMoment.run_after (fun _ _ => rfl) unread with ⟨late, atEnd⟩
  rw [← Pool.run_append] at atEnd
  generalize after.foldl readsAfter (before.foldl readsAfter 0) = count at atEnd
  have ended := returned.symm.trans atEnd.task
  have collected := atEnd.collected
  by_cases beyond : (DB.slots dataKeys expirationKeys).length ≤ count
  · rw [List.drop_of_length_le beyond] at ended
    rw [List.take_of_length_le beyond] at collected
    cases ended
    apply DB.ext_look
    intro slot
    rw [collected slot]
    split
    next => rfl
    next elsewhere =>
      by_contra present
      exact elsewhere (visits slot fun missing => present missing.symm)
  · rw [List.drop_eq_getElem_cons (Nat.lt_of_not_le beyond)] at ended
    rcases saveTask_cons _ _ _ with ⟨op, next, here, -⟩
    rw [here] at ended
    cases ended

/-- A SET of a key that the save has not come to. -/
theorem save_captures_moment_set :
    let set : DbProg (Option DB) := do
      let _ ← DB.set "b" (.string "2") none
      return none
    let pool := saveAmong ⟨FiniteMap.ofList [("a", .string "1")], ∅⟩ ["a", "b"] [] [set]
    let before := [(0, Env.at 0), (1, Env.at 0), (1, Env.at 0)]
    let final := pool.run Call.step (before ++ [(0, Env.at 0)])
    ∃ captured, final.threads[0]? = some (.ret (some captured)) ∧
      captured = (pool.run Call.step before).shared := by
  intro set pool before final
  obtain ⟨captured, returned⟩ : ∃ captured, final.threads[0]? = some (.ret (some captured)) :=
    ⟨_, rfl⟩
  have moment : (pool.run Call.step before).shared =
      ⟨(FiniteMap.ofList [("a", .string "1")]).insert "b" (.string "2"),
        Finmap.erase "b" ∅⟩ := rfl
  refine ⟨captured, returned, ?_⟩
  apply save_captures_moment _ _ _ _ _ [(0, Env.at 0)] _ _ _ returned
  · intro slot present
    rw [moment] at present
    cases slot with
    | data key =>
        by_contra elsewhere
        simp [DB.slots] at elsewhere
        simp [DB.look, FiniteMap.ofList, elsewhere] at present
    | deadline key => simp [DB.look, FiniteMap.lookup_erase_if] at present
  · refine ⟨?_, ?_, ?_, trivial⟩
    · rintro slot ⟨⟩
    · intro slot member
      cases List.mem_singleton.mp member
      rfl
    · intro slot member
      cases List.mem_singleton.mp member
      rfl
  · refine ⟨?_, trivial⟩
    intro slot member
    cases List.mem_singleton.mp member
    rfl

/-- A client that sets two keys, one after the other. -/
def setBoth (key key' : String) (value : RedisObject) : DbProg (Option DB) := do
  let _ ← DB.set key value none
  let _ ← DB.set key' value none
  return none

/-- A save of two keys beside a client that sets both. -/
def saveBesideSets : Pool DB Call Call.Response (Option DB) :=
  saveAmong ⟨FiniteMap.ofList [("a", .string "1"), ("b", .string "1")], ∅⟩ ["a", "b"] []
    [setBoth "a" "b" (.string "2")]

/-- The client sets both keys between the reads of the save, which captures the old value
of the first with the new value of the second. -/
theorem save_mixes_moments :
    let schedule := [0, 1, 1, 1, 1, 0].map fun i => (i, Env.at 0)
    ∃ captured, (saveBesideSets.run Call.step schedule).threads =
        [.ret (some captured), .ret none] ∧
      ∀ before after, schedule = before ++ after →
        captured ≠ (saveBesideSets.run Call.step before).shared := by
  -- as long as the first key has its old value, so has the second
  have inOrder : ∀ n ≤ 6,
      let db := (saveBesideSets.run Call.step
        (([0, 1, 1, 1, 1, 0].map fun i => (i, Env.at 0)).take n)).shared
      db.look (.data "a") = some (.inl (.string "1")) →
        db.look (.data "b") = some (.inl (.string "1")) := by
    decide
  refine ⟨⟨Finmap.insert "b" (.string "2") (Finmap.insert "a" (.string "1") ∅), ∅⟩, rfl, ?_⟩
  intro before after split same
  have bound : before.length ≤ 6 := by
    have lengths := congrArg List.length split
    rw [List.length_append] at lengths
    exact Nat.le.intro lengths.symm
  have old := inOrder before.length bound
  rw [split, List.take_left, ← same] at old
  exact absurd (old rfl) (by decide)

end Ember.Database
