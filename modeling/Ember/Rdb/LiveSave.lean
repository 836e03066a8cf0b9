import Ember.Config.Provenance
import Ember.Database.FuzzySnapshot
import Ember.Rdb.Recovery

/-!
# A save beside clients

The maps are read for a snapshot while clients and cleanups change them.  A server that
is started from the snapshot has each key as it was at some moment of the save: its
value as of a moment while the values were read, its deadline as of a moment while the
deadlines were.
-/

namespace Ember.Rdb.LiveSave

open Ember.Base Ember.Database Ember.Resp Ember.Provenance Ember.Rdb.Recovery

/-- The calls of a task beside a save. -/
def beside (spill : Spill UInt8) (target : Target) (worker : Worker) : DbProg (Option DB) := do
  let _ ← worker.prog spill target
  return none

/-- A save beside connections and cleanups. -/
def pool (spill : Spill UInt8) (target : Target) (start : DB) (workers : List Worker)
    (dataKeys expirationKeys : List String) : Pool DB Call Call.Response (Option DB) :=
  saveAmong start dataKeys expirationKeys (workers.map (beside spill target))

/-- The iterations come to every key that is in the map all the time. -/
structure Thorough (pool : Pool DB Call Call.Response (Option DB))
    (first second : List (ℕ × Env)) (dataKeys expirationKeys : List String) : Prop where
  data : ∀ key, (∀ db, pool.Visits Call.step first db → db.data.lookup key ≠ none) →
    key ∈ dataKeys
  expirations : ∀ key,
    (∀ db, (pool.run Call.step first).Visits Call.step second db →
      db.expirations.lookup key ≠ none) → key ∈ expirationKeys

variable {spill : Spill UInt8} {target : Target} {start db : DB} {workers : List Worker}
  {dataKeys expirationKeys : List String} {first second : List (ℕ × Env)} {captured : DB}

/-! ## The maps during the save -/

theorem honest_collect {sent : Command → Prop} (slots : List Slot) (found : DB) :
    (DB.collect slots found).Calls (Honest sent start) := by
  induction slots generalizing found with
  | nil => trivial
  | cons slot rest ih =>
      cases slot with
      | data key =>
          refine ⟨trivial, ?_⟩
          rintro (_ | value)
          · exact ih found
          · exact ih _
      | deadline key =>
          refine ⟨trivial, ?_⟩
          rintro (_ | deadline)
          · exact ih found
          · exact ih _

theorem safe_pool (spill : Spill UInt8) (target : Target) (start : DB) (workers : List Worker)
    (dataKeys expirationKeys : List String) :
    (pool spill target start workers dataKeys expirationKeys).Safe
      (Traced (Sent target workers) start) (Honest (Sent target workers) start) := by
  refine ⟨traced_start, fun thread member => ?_⟩
  rcases List.mem_cons.mp member with rfl | other
  · exact (honest_collect _ _).bind fun _ => trivial
  · rcases List.mem_map.mp other with ⟨worker, listed, rfl⟩
    exact (calls_worker spill target start listed).bind fun _ => trivial

/-- At every moment of the save the contents of the maps stem from somewhere. -/
theorem traced_of_visits {schedule : List (ℕ × Env)}
    (moment : (pool spill target start workers dataKeys expirationKeys).Visits Call.step
      schedule db) :
    Traced (Sent target workers) start db := by
  rcases moment with ⟨before, -, rfl⟩
  have safe := safe_pool spill target start workers dataKeys expirationKeys
  exact (safe.run Traced.step before).shared

theorem flat_of_traced {sent : Command → Prop} (flat : Flat start)
    (traced : Traced sent start db) : Flat db := by
  intro key items found item member
  rcases traced.value found item member with ⟨old, stored, inside⟩ | ⟨values, text, rfl, -, -⟩
  · exact flat key old stored item inside
  · exact ⟨text, rfl⟩

theorem noDeadline_of_traced {sent : Command → Prop} (free : NoDeadline Reserved start)
    (unreserved : ∀ c, sent c → ∀ key, c.Schedules key → ¬Reserved key)
    (traced : Traced sent start db) : NoDeadline Reserved db := by
  intro key reserved
  cases found : db.expirations.lookup key with
  | none => rfl
  | some deadline =>
      rcases traced.deadline found with old | ⟨value, asked⟩ | ⟨option, asked⟩
      · exact old.symm.trans (free key reserved)
      · exact absurd reserved (unreserved _ asked key ⟨rfl, rfl⟩)
      · exact absurd reserved (unreserved _ asked key rfl)

/-! ## What is captured -/

/-- Each key is captured as it was at some moment. -/
structure Momentary (pool : Pool DB Call Call.Response (Option DB))
    (first second : List (ℕ × Env)) (captured : DB) : Prop where
  data : ∀ key, ∃ db, pool.Visits Call.step first db ∧
    captured.data.lookup key = db.data.lookup key
  expirations : ∀ key, ∃ db, (pool.run Call.step first).Visits Call.step second db ∧
    captured.expirations.lookup key = db.expirations.lookup key

theorem momentary_of_returned
    (half : first.foldl readsAfter 0 = dataKeys.length)
    (returned : ((pool spill target start workers dataKeys expirationKeys).run Call.step
      (first ++ second)).threads[0]? = some (.ret (some captured)))
    (thorough : Thorough (pool spill target start workers dataKeys expirationKeys) first second
      dataKeys expirationKeys) :
    Momentary (pool spill target start workers dataKeys expirationKeys) first second captured := by
  obtain ⟨values, noValues, deadlines, noDeadlines⟩ := save_reads_moments _ _ _ _ half returned
  constructor
  · intro key
    by_cases come : key ∈ dataKeys
    · exact values key come
    · have skipped := mt (thorough.data key) come
      push Not at skipped
      rcases skipped with ⟨db, moment, missing⟩
      exact ⟨db, moment, (noValues key come).trans missing.symm⟩
  · intro key
    by_cases come : key ∈ expirationKeys
    · exact deadlines key come
    · have skipped := mt (thorough.expirations key) come
      push Not at skipped
      rcases skipped with ⟨db, moment, missing⟩
      exact ⟨db, moment, (noDeadlines key come).trans missing.symm⟩

/-- Lists hold texts only, as they do at every moment. -/
theorem Momentary.flat {pool : Pool DB Call Call.Response (Option DB)}
    (momentary : Momentary pool first second captured)
    (moments : ∀ db, pool.Visits Call.step (first ++ second) db → Flat db) : Flat captured := by
  intro key items found
  rcases momentary.data key with ⟨db, moment, same⟩
  exact moments db (moment.append_right second) key items (same ▸ found)

/-- No key with the property has a deadline, as none has at any moment. -/
theorem Momentary.noDeadline {pool : Pool DB Call Call.Response (Option DB)} {P : String → Prop}
    (momentary : Momentary pool first second captured)
    (moments : ∀ db, pool.Visits Call.step (first ++ second) db → NoDeadline P db) :
    NoDeadline P captured := by
  intro key holds
  rcases momentary.expirations key with ⟨db, moment, same⟩
  exact same.trans (moments db (.append_left first moment) key holds)

/-- A save beside any number of connections and cleanups, with their calls interleaved in
any way: the server starts again from its file, with the value of each key as of a
moment while the values were read, and the deadline as of a moment while the deadlines
were read after that. -/
theorem live_save_restores_moments (flat : Flat start) (free : NoDeadline Reserved start)
    (unreserved : ∀ c, Sent target workers c → ∀ key, c.Schedules key → ¬Reserved key)
    (half : first.foldl readsAfter 0 = dataKeys.length)
    (returned : ((pool spill target start workers dataKeys expirationKeys).run Call.step
      (first ++ second)).threads[0]? = some (.ret (some captured)))
    (thorough : Thorough (pool spill target start workers dataKeys expirationKeys) first second
      dataKeys expirationKeys)
    (short : Short captured) {task : SaveTask} (captures : Captures task captured)
    {bytes : List UInt8} (written : task.serialization = .ok bytes) (load : ℕ → Clocks) :
    ∃ loaded, DB.new load (some bytes) = .ok loaded ∧
      (∀ key, ∃ db, (pool spill target start workers dataKeys expirationKeys).Visits Call.step
          first db ∧
        loaded.data.lookup key = (db.data.lookup key).filter (· ≠ .list [])) ∧
      ∀ key, ∃ db, ((pool spill target start workers dataKeys expirationKeys).run Call.step
          first).Visits Call.step second db ∧
        Moved task load key (db.expirations.lookup key) (loaded.expirations.lookup key) := by
  have momentary := momentary_of_returned half returned thorough
  have flat' : Flat captured :=
    momentary.flat fun _ moment => flat_of_traced flat (traced_of_visits moment)
  have free' : NoDeadline Reserved captured := momentary.noDeadline fun _ moment =>
    noDeadline_of_traced free unreserved (traced_of_visits moment)
  rcases captures.exists_new ⟨fits_iff.mpr ⟨flat', short⟩, free'⟩ written load with
    ⟨loaded, started, data, deadlines⟩
  refine ⟨loaded, started, fun key => ?_, fun key => ?_⟩
  · rcases momentary.data key with ⟨db, moment, same⟩
    exact ⟨db, moment, same ▸ data key⟩
  · rcases momentary.expirations key with ⟨db, moment, same⟩
    exact ⟨db, moment, same ▸ deadlines key⟩

/-- What a save has returned. -/
def capture : DbProg (Option DB) → Option DB
  | .ret captured => captured
  | .call _ _ => none

theorem returned_of_capture {thread : Option (DbProg (Option DB))} {captured : DB}
    (made : thread.bind capture = some captured) : thread = some (.ret (some captured)) := by
  rcases Option.bind_eq_some_iff.mp made with ⟨prog, rfl, here⟩
  cases prog with
  | ret value =>
      cases here
      rfl
  | call op next => cases here

/-- What a save has captured, from what it has found at the keys that it came to. -/
theorem captures_of_returned {others : List (DbProg (Option DB))} {clock : ℕ → Clocks}
    {data : List (String × RedisObject)} {expirations : List (String × Instant)}
    (half : first.foldl readsAfter 0 = dataKeys.length)
    (returned : ((saveAmong start dataKeys expirationKeys others).run Call.step
      (first ++ second)).threads[0]? = some (.ret (some captured)))
    (distinct : (data.map Prod.fst).Nodup) (distinct' : (expirations.map Prod.fst).Nodup)
    (listed : ∀ entry ∈ data, entry.1 ∈ dataKeys)
    (listed' : ∀ entry ∈ expirations, entry.1 ∈ expirationKeys)
    (values : dataKeys.map captured.data.lookup = dataKeys.map (FiniteMap.ofList data).lookup)
    (deadlines : expirationKeys.map captured.expirations.lookup =
      expirationKeys.map (FiniteMap.ofList expirations).lookup) :
    Captures (SaveTask.inOnePiece clock data expirations) captured := by
  obtain ⟨-, noValues, -, noDeadlines⟩ := save_reads_moments _ _ _ _ half returned
  constructor
  · exact FiniteMap.traverses_of_keys distinct listed (List.map_inj_left.mp values) noValues
  · exact FiniteMap.traverses_of_keys distinct' listed' (List.map_inj_left.mp deadlines) noDeadlines

theorem short_of_captures {task : SaveTask} (captures : Captures task captured)
    (entries : ∀ entry ∈ task.db, ShortText entry.1 ∧ Storable entry.2)
    (keys : ∀ entry ∈ task.expirations, ShortText entry.1) : Short captured :=
  (fits_iff.mp (.of_traverses captures.data captures.expirations entries keys)).2

/-- A client deletes two keys between the reads of the save, which comes to the first one
before and to the second one after that.  The file has the first without the second, as
the maps never had, and the deadline of a third. -/
theorem live_save_restores_moments_deletes :
    let start : DB :=
      ⟨FiniteMap.ofList [("a", .string "1"), ("b", .string "1"), ("t", .string "1")],
        FiniteMap.ofList [("t", 7000000)]⟩
    let worker := Worker.connection [.bytes (utf8Bytes "DELETE a\r\nDELETE b\r\n")]
    let first := [0, 1, 1, 1, 1, 1, 0, 0].map fun i => (i, Env.at 0)
    let second := [1, 0].map fun i => (i, Env.at 0)
    let saving := pool .atFlush ⟨true, 24⟩ start [worker] ["a", "b", "t"] ["t"]
    let task := SaveTask.inOnePiece (fun _ => ⟨1000000, 2000000⟩)
      [("a", .string "1"), ("t", .string "1")] [("t", 7000000)]
    ∃ bytes loaded, task.serialization = .ok bytes ∧
      DB.new (fun _ => ⟨100, 4000000⟩) (some bytes) = .ok loaded ∧
      (∀ key, ∃ db, saving.Visits Call.step first db ∧
        loaded.data.lookup key = (db.data.lookup key).filter (· ≠ .list [])) ∧
      ∀ key, ∃ db, (saving.run Call.step first).Visits Call.step second db ∧
        Moved task (fun _ => ⟨100, 4000000⟩) key (db.expirations.lookup key)
          (loaded.expirations.lookup key) := by
  intro start worker first second saving task
  have entries : ((saving.run Call.step (first ++ second)).threads[0]?.bind capture).map
      (fun db => (["a", "b", "t"].map db.data.lookup, ["t"].map db.expirations.lookup)) =
        some ([some (.string "1"), none, some (.string "1")], [some 7000000]) := by
    decide +kernel
  rcases Option.map_eq_some_iff.mp entries with ⟨captured, made, found⟩
  rcases (Prod.mk.injEq ..).mp found with ⟨values, deadlines⟩
  have returned := returned_of_capture made
  have half : first.foldl readsAfter 0 = 3 := rfl
  have captures : Captures task captured :=
    captures_of_returned half returned (by decide) (by decide) (by decide) (by decide)
      (values.trans (by decide)) (deadlines.trans (by decide))
  have asked : ∀ c, Sent ⟨true, 24⟩ [worker] c → ∀ key, ¬c.Schedules key := by
    rintro c ⟨events, listed, resp, member, now, extracted⟩
    rw [Worker.connection.inj (List.mem_singleton.mp listed)] at member
    rcases List.mem_pair.mp member with same | same
    · cases same
      cases extracted
      exact fun _ => id
    · cases same
      cases extracted
      exact fun _ => id
  have stored : ∀ key value, start.data.lookup key = some value →
      key ∈ ["a", "b", "t"] ∧ value = .string "1" := by
    intro key value found
    have member := (FiniteMap.traverses_ofList (by decide)).mem_iff.mpr found
    have all : ∀ entry ∈ [("a", RedisObject.string "1"), ("b", .string "1"), ("t", .string "1")],
        entry.1 ∈ ["a", "b", "t"] ∧ entry.2 = .string "1" := by decide
    exact all _ member
  have timed : ∀ key deadline, start.expirations.lookup key = some deadline → key = "t" := by
    intro key deadline found
    have distinct : ([("t", 7000000)].map Prod.fst : List String).Nodup := List.nodup_singleton _
    have member := (FiniteMap.traverses_ofList distinct).mem_iff.mpr found
    exact congrArg Prod.fst (List.mem_singleton.mp member)
  have flat : Flat start := by
    intro key items found
    cases (stored key _ found).2
  have free : NoDeadline Reserved start := by
    intro key reserved
    by_contra present
    rcases Option.ne_none_iff_exists'.mp present with ⟨deadline, found⟩
    exact absurd (timed key deadline found ▸ reserved) (by decide)
  have thorough : Thorough saving first second ["a", "b", "t"] ["t"] := by
    constructor
    · intro key always
      rcases Option.ne_none_iff_exists'.mp (always start Pool.visits_start) with ⟨value, found⟩
      exact (stored key value found).1
    · intro key always
      have moment : saving.Visits Call.step (first ++ second) _ :=
        .append_left first Pool.visits_start
      rcases Option.ne_none_iff_exists'.mp (always _ Pool.visits_start) with ⟨deadline, found⟩
      rcases (traced_of_visits moment).deadline found with old | ⟨value, sent⟩ | ⟨option, sent⟩
      · exact List.mem_singleton.mpr (timed key deadline old)
      · exact absurd ⟨rfl, rfl⟩ (asked _ sent key)
      · exact absurd rfl (asked _ sent key)
  obtain ⟨bytes, written⟩ : ∃ bytes, saveRdb (fun _ => ⟨1000000, 2000000⟩)
      [("a", .string "1"), ("t", .string "1")] [("t", 7000000)] = .ok bytes := ⟨_, rfl⟩
  obtain ⟨loaded, accepted, restored⟩ := live_save_restores_moments flat free
    (fun c sent key schedules => absurd schedules (asked c sent key)) half returned thorough
    (short_of_captures captures (by decide) (by decide)) captures written fun _ => ⟨100, 4000000⟩
  exact ⟨bytes, loaded, written, accepted, restored⟩

end Ember.Rdb.LiveSave
