import Ember.Database.Snapshot

/-!
# What a save captures in any case

A save beside other tasks does not capture the maps at one moment.  But each of its
entries is one that was there at some moment while the map was iterated, and a key that
is missing was missing at such a moment, as long as the iterations do not skip keys that
are there all the time.
-/

namespace Ember.Database

open Ember.Base

/-- The save has read so many places.  What it has collected from each of them was there
at a moment of a kind; elsewhere the collection is what it was. -/
structure Reading (seen : DB → Prop) (slots : List Slot) (base : DB) (count : ℕ) (found : DB)
    (pool : Pool DB Call Call.Response (Option DB)) : Prop where
  task : pool.threads[0]? = some (saveTask (slots.drop count) found)
  past : ∀ slot ∈ slots.take count, ∃ db, seen db ∧ found.look slot = db.look slot
  other : ∀ slot, slot ∉ slots.take count → found.look slot = base.look slot

namespace Reading

variable {seen : DB → Prop} {slots : List Slot} {base found : DB} {count : ℕ}
  {pool : Pool DB Call Call.Response (Option DB)}

/-- The next place is read. -/
theorem visit (reading : Reading seen slots base count found pool)
    (fresh : ∀ slot ∈ slots, base.look slot = none) (now : seen pool.shared) (env : Env)
    (inside : count < slots.length) :
    Reading seen slots base (count + 1) (found.add pool.shared slots[count])
      (pool.turn Call.step (0, env)) := by
  have left : slots.drop count = slots[count] :: slots.drop (count + 1) :=
    List.drop_eq_getElem_cons inside
  have taken : slots.take (count + 1) = slots.take count ++ [slots[count]] :=
    List.take_succ_eq_append_getElem inside
  rcases saveTask_cons slots[count] (slots.drop (count + 1)) found with ⟨op, rest, here, reads⟩
  have task := reading.task
  rw [left, here] at task
  refine ⟨?_, ?_, ?_⟩
  · rw [Pool.turn_of_call Call.step task,
      List.getElem?_set_self (List.getElem?_eq_some_iff.mp task).1]
    exact congrArg some (reads env pool.shared).2
  · intro slot member
    rw [DB.look_add]
    split
    next here =>
      -- A place that is read again and empty by now keeps what was found before.
      subst here
      cases present : pool.shared.look slots[count] with
      | some content => exact ⟨pool.shared, now, present.symm⟩
      | none =>
          rw [Option.none_or]
          by_cases again : slots[count] ∈ slots.take count
          · exact reading.past _ again
          · rw [reading.other _ again, fresh _ (List.getElem_mem inside)]
            exact ⟨pool.shared, now, present.symm⟩
    next elsewhere =>
      rw [taken] at member
      rcases List.mem_append.mp member with before | last
      · exact reading.past slot before
      · exact absurd (List.mem_singleton.mp last) elsewhere
  · intro slot unread
    rw [taken, List.mem_append, not_or, List.mem_singleton] at unread
    rw [DB.look_add, if_neg unread.2]
    exact reading.other slot unread.1

/-- There is nothing left to read. -/
theorem idle (reading : Reading seen slots base count found pool) (env : Env)
    (beyond : slots.length ≤ count) :
    Reading seen slots base (count + 1) found (pool.turn Call.step (0, env)) := by
  rcases reading with ⟨task, past, other⟩
  have all : slots.take (count + 1) = slots.take count := by
    rw [List.take_of_length_le beyond, List.take_of_length_le (Nat.le_succ_of_le beyond)]
  have none : slots.drop (count + 1) = slots.drop count := by
    rw [List.drop_of_length_le beyond, List.drop_of_length_le (Nat.le_succ_of_le beyond)]
  have same : pool.turn Call.step (0, env) = pool := by
    rw [List.drop_of_length_le beyond] at task
    simp [Pool.turn, task, saveTask, DB.collect]
  rw [same]
  exact ⟨none ▸ task, all ▸ past, all ▸ other⟩

theorem turn (reading : Reading seen slots base count found pool)
    (fresh : ∀ slot ∈ slots, base.look slot = none) (now : seen pool.shared) (turn : ℕ × Env) :
    ∃ found', Reading seen slots base (readsAfter count turn) found'
      (pool.turn Call.step turn) := by
  rcases turn with ⟨i, env⟩
  by_cases own : i = 0
  · subst own
    rw [readsAfter, if_pos rfl]
    by_cases inside : count < slots.length
    · exact ⟨_, reading.visit fresh now env inside⟩
    · exact ⟨found, reading.idle env (Nat.le_of_not_lt inside)⟩
  · rw [readsAfter, if_neg own]
    exact ⟨found, (Pool.turn_other own).trans reading.task, reading.past, reading.other⟩

theorem run {schedule : List (ℕ × Env)} (reading : Reading seen slots base count found pool)
    (fresh : ∀ slot ∈ slots, base.look slot = none)
    (moments : ∀ db, pool.Visits Call.step schedule db → seen db) :
    ∃ found', Reading seen slots base (schedule.foldl readsAfter count) found'
      (pool.run Call.step schedule) := by
  induction schedule generalizing count found pool with
  | nil => exact ⟨found, reading⟩
  | cons choice rest ih =>
      rcases reading.turn fresh (moments _ Pool.visits_start) choice with ⟨found', next⟩
      exact ih next fun db later => moments db later.cons

/-- A save that has returned has read all places. -/
theorem of_returned {captured : DB} (reading : Reading seen slots base count found pool)
    (returned : pool.threads[0]? = some (.ret (some captured))) :
    captured = found ∧ slots.length ≤ count := by
  have ended := returned.symm.trans reading.task
  by_cases beyond : slots.length ≤ count
  · rw [List.drop_of_length_le beyond] at ended
    cases ended
    exact ⟨rfl, beyond⟩
  · rw [List.drop_eq_getElem_cons (Nat.lt_of_not_le beyond)] at ended
    rcases saveTask_cons _ _ _ with ⟨op, next, here, -⟩
    rw [here] at ended
    cases ended

end Reading

theorem DB.lookup_data_eq_of_look {db db' : DB} {key : String}
    (same : db.look (.data key) = db'.look (.data key)) :
    db.data.lookup key = db'.data.lookup key :=
  Option.map_injective Sum.inl_injective same

theorem DB.lookup_expirations_eq_of_look {db db' : DB} {key : String}
    (same : db.look (.deadline key) = db'.look (.deadline key)) :
    db.expirations.lookup key = db'.expirations.lookup key :=
  Option.map_injective Sum.inr_injective same

/-- A save beside any other tasks: the values that it captures were there at moments
before it was done with the first map, the deadlines at moments after that. -/
theorem save_reads_moments (db : DB) (dataKeys expirationKeys : List String)
    (others : List (DbProg (Option DB))) {first second : List (ℕ × Env)} {captured : DB}
    (half : first.foldl readsAfter 0 = dataKeys.length)
    (returned : ((saveAmong db dataKeys expirationKeys others).run Call.step
      (first ++ second)).threads[0]? = some (.ret (some captured))) :
    let pool := saveAmong db dataKeys expirationKeys others
    (∀ key ∈ dataKeys, ∃ db, pool.Visits Call.step first db ∧
      captured.data.lookup key = db.data.lookup key) ∧
    (∀ key, key ∉ dataKeys → captured.data.lookup key = none) ∧
    (∀ key ∈ expirationKeys, ∃ db, (pool.run Call.step first).Visits Call.step second db ∧
      captured.expirations.lookup key = db.expirations.lookup key) ∧
    ∀ key, key ∉ expirationKeys → captured.expirations.lookup key = none := by
  intro pool
  let slots := DB.slots dataKeys expirationKeys
  let deadlines := expirationKeys.map Slot.deadline
  have size : (dataKeys.map Slot.data).length = dataKeys.length := List.length_map _
  have taken : slots.take dataKeys.length = dataKeys.map .data := List.take_left' size
  have left : slots.drop dataKeys.length = deadlines := List.drop_left' size
  have start : Reading (pool.Visits Call.step first) slots ⟨∅, ∅⟩ 0 ⟨∅, ∅⟩ pool :=
    ⟨rfl, fun _ member => absurd member List.not_mem_nil, fun _ _ => rfl⟩
  have nothing : ∀ slot, (⟨∅, ∅⟩ : DB).look slot = none := by
    rintro (key | key) <;> rfl
  rcases start.run (fun slot _ => nothing slot) fun _ => id with ⟨values, middle⟩
  rcases middle with ⟨task, past, other⟩
  rw [half, left] at task
  rw [half, taken] at past other
  have again : Reading ((pool.run Call.step first).Visits Call.step second) deadlines values 0
      values (pool.run Call.step first) :=
    ⟨task, fun _ member => absurd member List.not_mem_nil, fun _ _ => rfl⟩
  have fresh : ∀ slot ∈ deadlines, values.look slot = none := by
    intro slot member
    rcases List.mem_map.mp member with ⟨key, -, rfl⟩
    rw [other _ (by simp), nothing]
  rcases again.run fresh fun _ => id with ⟨found, final⟩
  rw [Pool.run_append] at returned
  rcases final.of_returned returned with ⟨rfl, beyond⟩
  have read := final.past
  have kept := final.other
  rw [List.take_of_length_le beyond] at read kept
  refine ⟨?_, ?_, ?_, ?_⟩
  · intro key member
    rcases past (.data key) (List.mem_map_of_mem member) with ⟨db, moment, same⟩
    refine ⟨db, moment, DB.lookup_data_eq_of_look ?_⟩
    rw [kept _ (by simp [deadlines]), same]
  · intro key missing
    have same : captured.look (.data key) = (⟨∅, ∅⟩ : DB).look (.data key) := by
      rw [kept _ (by simp [deadlines]), other _ (by simp [missing])]
    exact DB.lookup_data_eq_of_look same
  · intro key member
    rcases read (.deadline key) (List.mem_map_of_mem member) with ⟨db, moment, same⟩
    exact ⟨db, moment, DB.lookup_expirations_eq_of_look same⟩
  · intro key missing
    have same : captured.look (.deadline key) = (⟨∅, ∅⟩ : DB).look (.deadline key) := by
      rw [kept _ (by simp [deadlines, missing]), other _ (by simp)]
    exact DB.lookup_expirations_eq_of_look same

end Ember.Database
