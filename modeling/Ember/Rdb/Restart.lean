import Ember.Command.Contents
import Ember.Rdb.RoundTrip

/-!
# Restarting from a snapshot

The snapshot of a running server is accepted unless a key with a deadline spells
the name of a data type, and it brings back all the data unless a list is empty.
-/

namespace Ember

open Ember.Base Ember.Database Ember.Resp Ember.Rdb Dispatcher

/-- The maps of a new server, which does not start from a file that it cannot
load. -/
def Database.DB.new (clock : ℕ → Clocks) (file : Option (List UInt8)) : Outcome String DB :=
  match loadRdb clock file with
  | .ok loaded => .ok ⟨loaded.db, loaded.expirations⟩
  | .error _ | .panic => .panic

namespace Rdb

/-- A value whose texts and items can be counted in 32 bits. -/
def ShortValue : RedisObject → Prop
  | .string s => ShortText s
  | .list items => items.length < 2 ^ 32 ∧ ∀ s, .string s ∈ items → ShortText s

/-- All strings and lists are shorter than 2³². -/
structure Short (db : DB) : Prop where
  entries : ∀ key value, db.data.lookup key = some value → ShortText key ∧ ShortValue value
  keys : ∀ key deadline, db.expirations.lookup key = some deadline → ShortText key

theorem fits_iff {db : DB} : Fits db ↔ Flat db ∧ Short db := by
  constructor
  · intro fits
    refine ⟨fun key items found item member => ?_, fun key value found => ?_, fits.keys⟩
    · rcases (fits.entries key _ found).2.2 item member with ⟨s, text, -⟩
      exact ⟨s, text⟩
    · rcases fits.entries key value found with ⟨shortKey, storable⟩
      constructor
      · exact shortKey
      · cases value with
        | string s => exact storable
        | list items =>
            refine ⟨storable.1, fun s member => ?_⟩
            rcases storable.2 _ member with ⟨_, ⟨⟩, short⟩
            exact short
  · rintro ⟨flat, short⟩
    refine ⟨fun key value found => ?_, short.keys⟩
    rcases short.entries key value found with ⟨shortKey, shortValue⟩
    constructor
    · exact shortKey
    · cases value with
      | string s => exact shortValue
      | list items =>
          refine ⟨shortValue.1, fun item member => ?_⟩
          rcases flat key items found item member with ⟨s, rfl⟩
          exact ⟨s, rfl, shortValue.2 s member⟩

/-- Data without its empty lists is the same data exactly when there are none. -/
theorem eq_iff_noEmptyList {db : DB} {map : FiniteMap String RedisObject}
    (contents : ∀ key, map.lookup key = (db.data.lookup key).filter (· ≠ .list [])) :
    map = db.data ↔ NoEmptyList db := by
  constructor
  · rintro same key empty
    have lost := contents key
    rw [same, empty] at lost
    cases lost
  · intro noEmpty
    apply Finmap.ext_lookup
    intro key
    rw [contents]
    cases found : db.data.lookup key with
    | none => rfl
    | some value =>
        have nonempty : value ≠ .list [] := fun empty => noEmpty key (empty ▸ found)
        rw [Option.filter_some, if_pos (decide_eq_true nonempty)]

section Restart

variable {target : Target} {events : List Server.Event} {data : List (String × RedisObject)}
  {expirations : List (String × Instant)} {save : ℕ → Clocks} {bytes : List UInt8}

theorem fits_of_run (short : Short (Server.new.run target events).db) :
    Fits (Server.new.run target events).db :=
  fits_iff.mpr ⟨Server.flat_of_reachable ⟨events, rfl⟩, short⟩

/-- A server can be started again from the snapshot of the maps that a run left if
and only if no key with a deadline spells the name of a data type.  So it can after
every run whose commands give no such key a deadline. -/
theorem restart_accepted_iff (short : Short (Server.new.run target events).db)
    (dataOrder : FiniteMap.Traverses data (Server.new.run target events).db.data)
    (deadlineOrder :
      FiniteMap.Traverses expirations (Server.new.run target events).db.expirations)
    (written : saveRdb save data expirations = .ok bytes) (load : ℕ → Clocks) :
    ((∃ loaded, loadRdb load (some bytes) = .ok loaded) ↔
      NoDeadline Reserved (Server.new.run target events).db) ∧
    ((∀ event ∈ events, event.Within fun c => ∀ key, c.Schedules key → ¬Reserved key) →
      ∃ loaded, loadRdb load (some bytes) = .ok loaded) := by
  have accepted := exists_parse_eq_ok_iff (fits_of_run short) dataOrder deadlineOrder written load
  exact ⟨accepted, fun within => accepted.mpr (Server.noDeadline_of_run within)⟩

/-- A string with a deadline and a list. -/
theorem restart_accepted_iff_expiring :
    let events := [.dispatch 0 (.set "a" "v" (some 7000000)) fun _ => 0,
      .dispatch 1 (.rpush "l" ["x", "y"]) fun _ => 0]
    let data := [("l", .list [.string "x", .string "y"]), ("a", .string "v")]
    (Server.new.run ⟨true, 24⟩ events).db =
      ⟨FiniteMap.ofList data, FiniteMap.ofList [("a", 7000000)]⟩ ∧
    ∃ bytes, saveRdb (fun _ => ⟨10, 20⟩) data [("a", 7000000)] = .ok bytes ∧
      ∃ loaded, loadRdb (fun _ => ⟨10, 20⟩) (some bytes) = .ok loaded := by
  intro events data
  have reached : (Server.new.run ⟨true, 24⟩ events).db =
      ⟨FiniteMap.ofList data, FiniteMap.ofList [("a", 7000000)]⟩ := rfl
  have dataOrder := FiniteMap.traverses_ofList (show (data.map Prod.fst).Nodup by decide)
  have deadlineOrder := FiniteMap.traverses_ofList
    (show ([("a", 7000000)].map Prod.fst : List String).Nodup by decide)
  have fits : Fits ⟨FiniteMap.ofList data, FiniteMap.ofList [("a", 7000000)]⟩ :=
    .of_traverses dataOrder deadlineOrder (by decide) (by decide)
  have free := (deadlineOrder.forall_lookup_eq_none_iff Reserved).mpr (by decide)
  obtain ⟨bytes, written⟩ :
      ∃ bytes, saveRdb (fun _ => ⟨10, 20⟩) data [("a", 7000000)] = .ok bytes := ⟨_, rfl⟩
  have accepted := @restart_accepted_iff ⟨true, 24⟩ events _ _ _ _ (reached ▸ (fits_iff.mp fits).2)
    dataOrder deadlineOrder written fun _ => ⟨10, 20⟩
  exact ⟨reached, bytes, written, accepted.1.mpr free⟩

/-- A client sets the key `string` for a second.  The server cannot start from the
snapshot that holds this deadline. -/
theorem restart_refuses_reserved_key :
    let request := .array [.bulkString "SET", .bulkString "string", .bulkString "v",
      .bulkString "PX", .bulkString "1000"]
    let cmd : Command := .set "string" "v" (some 1000000000)
    let data := [("string", .string "v")]
    let expirations := [("string", 1000000000)]
    Command.extractCommand ⟨true, 24⟩ 0 request = .ok cmd ∧
    (Server.new.run ⟨true, 24⟩ [.dispatch 0 cmd fun _ => 0]).db =
      ⟨FiniteMap.ofList data, FiniteMap.ofList expirations⟩ ∧
    ∃ bytes, saveRdb (fun _ => ⟨10, 20⟩) data expirations = .ok bytes ∧
      (fun _ => ()) <$> loadRdb (fun _ => ⟨10, 20⟩) (some bytes) =
        .error "Unexpected value type marker for STRING: 252" ∧
      (DB.new (fun _ => ⟨10, 20⟩) (some bytes)).isPanic = true := by
  refine ⟨by decide +kernel, rfl, _, rfl, by decide +kernel, by decide +kernel⟩

/-- Without deadlines there is no clock to read, and nothing that could fail. -/
theorem exists_saveRdb_of_noDeadlines {db : DB}
    (deadlineOrder : FiniteMap.Traverses expirations db.expirations)
    (noDeadlines : ∀ key, db.expirations.lookup key = none) (save : ℕ → Clocks)
    (data : List (String × RedisObject)) : ∃ bytes, saveRdb save data expirations = .ok bytes := by
  have empty : expirations = [] := by
    apply List.eq_nil_iff_forall_not_mem.mpr
    intro entry member
    cases (noDeadlines entry.1).symm.trans (deadlineOrder.mem_iff.mp member)
  rw [empty]
  exact ⟨_, rfl⟩

/-- A server without deadlines can always write its snapshot, which brings back
exactly its data if and only if no list is empty.  So it does after every run in
which no push is without values. -/
theorem reload_data_iff (short : Short (Server.new.run target events).db)
    (noDeadlines : ∀ key, (Server.new.run target events).db.expirations.lookup key = none)
    (dataOrder : FiniteMap.Traverses data (Server.new.run target events).db.data)
    (deadlineOrder :
      FiniteMap.Traverses expirations (Server.new.run target events).db.expirations)
    (save load : ℕ → Clocks) :
    ∃ bytes, saveRdb save data expirations = .ok bytes ∧
      ((∃ loaded, loadRdb load (some bytes) = .ok loaded ∧
          loaded.db = (Server.new.run target events).db.data) ↔
        NoEmptyList (Server.new.run target events).db) ∧
      ((∀ event ∈ events, event.Within fun c => ¬c.PushesNothing) →
        ∃ loaded, loadRdb load (some bytes) = .ok loaded ∧
          loaded.db = (Server.new.run target events).db.data) := by
  rcases exists_saveRdb_of_noDeadlines deadlineOrder noDeadlines save data with ⟨bytes, written⟩
  obtain ⟨loaded, accepted, contents, -⟩ := exists_parse_of_free (fits_of_run short) dataOrder
    deadlineOrder written load fun key _ => noDeadlines key
  have restored := eq_iff_noEmptyList contents
  have reloads : (∃ loaded, loadRdb load (some bytes) = .ok loaded ∧
      loaded.db = (Server.new.run target events).db.data) ↔
        NoEmptyList (Server.new.run target events).db := by
    constructor
    · rintro ⟨loaded', accepted', same⟩
      cases accepted'.symm.trans accepted
      exact restored.mp same
    · intro noEmpty
      exact ⟨loaded, accepted, restored.mpr noEmpty⟩
  exact ⟨bytes, written, reloads, fun within => reloads.mpr (Server.noEmptyList_of_run within)⟩

/-- A string and a list. -/
theorem reload_data_iff_lists :
    let events := [.dispatch 0 (.set "a" "v" none) fun _ => 0,
      .dispatch 1 (.rpush "l" ["x", "y"]) fun _ => 0]
    let data := [("l", .list [.string "x", .string "y"]), ("a", .string "v")]
    (Server.new.run ⟨true, 24⟩ events).db = ⟨FiniteMap.ofList data, ∅⟩ ∧
    ∃ bytes, saveRdb (fun _ => ⟨10, 20⟩) data [] = .ok bytes ∧
      ∃ loaded, loadRdb (fun _ => ⟨10, 20⟩) (some bytes) = .ok loaded ∧
        loaded.db = FiniteMap.ofList data := by
  intro events data
  have reached : (Server.new.run ⟨true, 24⟩ events).db = ⟨FiniteMap.ofList data, ∅⟩ := rfl
  have dataOrder := FiniteMap.traverses_ofList (show (data.map Prod.fst).Nodup by decide)
  have deadlineOrder : FiniteMap.Traverses [] (∅ : FiniteMap String Instant) :=
    FiniteMap.traverses_ofList List.nodup_nil
  have fits : Fits ⟨FiniteMap.ofList data, ∅⟩ :=
    .of_traverses dataOrder deadlineOrder (by decide) nofun
  obtain ⟨bytes, written, -, reloads⟩ := @reload_data_iff ⟨true, 24⟩ events _ _
    (reached ▸ (fits_iff.mp fits).2) (fun _ => rfl) dataOrder deadlineOrder
    (fun _ => ⟨10, 20⟩) fun _ => ⟨10, 20⟩
  refine ⟨reached, bytes, written, reloads ?_⟩
  intro event member
  simp only [events, List.mem_cons, List.not_mem_nil, or_false] at member
  rcases member with rfl | rfl <;> exact id

/-- A client pushes nothing to a key, which is then bound to an empty list.  After
a restart it is gone. -/
theorem reload_loses_empty_list :
    let cmd : Command := .lpush "k" []
    Command.extractCommand ⟨true, 24⟩ 0 (.array [.bulkString "LPUSH", .bulkString "k"]) =
      .ok cmd ∧
    (Server.new.run ⟨true, 24⟩ [.dispatch 0 cmd fun _ => 0]).db =
      ⟨FiniteMap.ofList [("k", .list [])], ∅⟩ ∧
    ∃ bytes, saveRdb (fun _ => ⟨10, 20⟩) [("k", .list [])] [] = .ok bytes ∧
      (fun loaded => loaded.db.lookup "k") <$> loadRdb (fun _ => ⟨10, 20⟩) (some bytes) =
        .ok none := by
  refine ⟨by decide +kernel, rfl, _, rfl, by decide +kernel⟩

end Restart

end Rdb

end Ember
