import Ember.Command.Contents
import Ember.Database.Lists
import Ember.Rdb.Writer

/-!
# The representation invariant of the maps

In every state of a run, only keys with a value have a deadline, and lists hold
nothing but texts.  A list made by a push therefore starts without a deadline, and
the two places that leave out items which are not texts, the reply to LRANGE and
the snapshot writer, leave out none.
-/

namespace Ember

open Ember.Base Ember.Database Ember.Resp Dispatcher

/-- Deadlines belong to values. -/
def Anchored (db : DB) : Prop :=
  ∀ key deadline, db.expirations.lookup key = some deadline → (db.data.lookup key).isSome

/-- The representation invariant. -/
structure Consistent (db : DB) : Prop where
  anchored : Anchored db
  flat : Flat db

section Anchored

variable {target : Target} {now : Instant} {db db' : DB} {key : String}

theorem Anchored.no_deadline (anchored : Anchored db) (absent : db.data.lookup key = none) :
    db.expirations.lookup key = none := by
  apply Option.eq_none_iff_forall_ne_some.mpr
  intro deadline found
  have present := anchored key deadline found
  rw [absent] at present
  cases present

/-- What is removed is removed from both maps. -/
theorem Anchored.reaped (anchored : Anchored db) (reaped : DB.Reaped now db db') :
    Anchored db' := by
  intro key deadline found
  rcases reaped key with ⟨data, same⟩ | ⟨-, -, gone⟩
  · rw [data]
    exact anchored key deadline (same.symm.trans found)
  · cases gone.symm.trans found

theorem Anchored.effect (anchored : Anchored db) {c : Command} (plain : ¬c.Controls) :
    Anchored (Dispatcher.effect target now db c).2 := by
  have change := effect_change target now db plain
  generalize (Dispatcher.effect target now db c).2 = db' at change ⊢
  cases change with
  | none => exact anchored
  | settled key' => exact anchored.reaped (DB.Reaped.settle now db key')
  | bound key' text expiresAt =>
      intro key deadline found
      rw [DB.lookup_bindKey_data]
      split
      next => rfl
      next other =>
        rw [DB.lookup_bindKey_expirations, if_neg other] at found
        exact anchored key deadline found
  | evicted key' =>
      intro key deadline found
      rw [DB.lookup_evict_data]
      rw [DB.lookup_evict_expirations] at found
      split at found
      next => cases found
      next other =>
        rw [if_neg other]
        exact anchored key deadline found
  | pushed push old perm =>
      intro key deadline found
      rw [FiniteMap.lookup_insert_if]
      split
      next => rfl
      next => exact anchored key deadline found
  | @scheduled key' expiresAt option present =>
      intro key deadline found
      rw [FiniteMap.lookup_insert_if] at found
      split at found
      next same => exact same ▸ present
      next => exact anchored key deadline found

/-- A push to a key without a value binds it, and leaves the deadlines alone. -/
theorem effect_push_of_none {c : Command} {values : List String}
    (push : c = .lpush key values ∨ c = .rpush key values) (absent : db.data.lookup key = none) :
    ((Dispatcher.effect target now db c).2.data.lookup key).isSome ∧
      (Dispatcher.effect target now db c).2.expirations = db.expirations := by
  have bound : ∀ items, ((db.putList key items).data.lookup key).isSome :=
    fun items => Option.isSome_iff_exists.mpr ⟨_, db.lookup_putList key items⟩
  rcases push with rfl | rfl
  · rw [effect_lpush, DB.exec_lpush_of_none absent]
    exact ⟨bound _, rfl⟩
  · have holds : db.HoldsList key := by
      intro text other
      cases absent.symm.trans other
    rw [effect_rpush, DB.exec_rpush holds]
    exact ⟨bound _, rfl⟩

end Anchored

/-! ## Items that are left out -/

/-- A list without lists in it is a list of texts. -/
theorem exists_texts {items : List RedisObject} (flat : ∀ item ∈ items, ∃ s, item = .string s) :
    ∃ texts : List String, items = texts.map .string := by
  induction items with
  | nil => exact ⟨[], rfl⟩
  | cons item rest ih =>
      rcases List.forall_mem_cons.mp flat with ⟨⟨s, rfl⟩, flatRest⟩
      rcases ih flatRest with ⟨texts, rfl⟩
      exact ⟨s :: texts, rfl⟩

theorem replyLrange_texts (texts : List String) :
    replyLrange (.list (texts.map .string)) = .ok (.array (texts.map .bulkString)) := by
  have all : texts.filterMap (some ∘ RespType.bulkString) = texts.map .bulkString :=
    congrFun List.filterMap_eq_map texts
  rw [replyLrange, List.filterMap_map]
  exact congrArg (fun items => Outcome.ok (RespType.array items)) all

/-- The reply to LRANGE has every item that the range has. -/
theorem Flat.effect_lrange {target : Target} {now : Instant} {db : DB} (flat : Flat db)
    {key : String} {start stop : Int32} {items : List RedisObject}
    (answered : (DB.exec now (DB.lrange target key start stop) db).1 = .ok (.list items)) :
    ∃ texts : List String, items = texts.map .string ∧
      (effect target now db (.lrange key start stop)).1 =
        .ok (.array (texts.map .bulkString)) := by
  rw [DB.exec_lrange] at answered
  replace answered : DB.lrangeReply target start stop (db.visible now key) = .ok (.list items) :=
    answered
  rcases DB.lrangeReply_eq_list_iff.mp answered with ⟨list, visible, computed⟩
  rcases DB.visible_eq_some_iff.mp visible with ⟨-, stored⟩
  obtain ⟨texts, rfl⟩ := exists_texts fun item member =>
    flat key list stored item ((DB.range_sublist computed).subset member)
  refine ⟨texts, rfl, ?_⟩
  rw [Dispatcher.effect_lrange, answered]
  exact replyLrange_texts texts

theorem writeItems_texts (key : String) (texts : List String) :
    Rdb.writeItems key (texts.map .string) = texts.flatMap (Rdb.writeValue key) := by
  induction texts with
  | nil => rfl
  | cons s rest ih => rw [List.map_cons, Rdb.writeItems, ih, List.flatMap_cons]

namespace Server

variable {target : Target} {server : Server}

theorem anchored_of_reachable (reachable : Reachable target server) : Anchored server.db := by
  apply holds_of_reachable ?_ ?_ ?_ reachable
  · intro key deadline found
    cases found
  · intro now db c plain anchored
    exact anchored.effect plain
  · intro now db db' reaped anchored
    exact anchored.reaped reaped

/-- Every state of a run is consistent.  A push that binds a new key therefore leaves
it without a deadline, the reply to LRANGE has all the items of the range, and the
snapshot has all the items of a list, as many as it announces. -/
theorem consistent_of_reachable (reachable : Reachable target server) :
    Consistent server.db ∧
    (∀ now key values c, c = .lpush key values ∨ c = .rpush key values →
      server.db.data.lookup key = none →
        ((effect target now server.db c).2.data.lookup key).isSome ∧
          (effect target now server.db c).2.expirations.lookup key = none) ∧
    (∀ now key start stop items,
      (DB.exec now (DB.lrange target key start stop) server.db).1 = .ok (.list items) →
        ∃ texts : List String, items = texts.map .string ∧
          (effect target now server.db (.lrange key start stop)).1 =
            .ok (.array (texts.map .bulkString))) ∧
    ∀ key items, server.db.data.lookup key = some (.list items) →
      ∃ texts : List String, items = texts.map .string ∧
        Rdb.writeEntry (key, .list items) =
          Rdb.writeString "list" ++ Rdb.writeLength texts.length ++
            texts.flatMap (Rdb.writeValue key) := by
  have anchored := anchored_of_reachable reachable
  have flat := flat_of_reachable reachable
  refine ⟨⟨anchored, flat⟩, ?_, ?_, ?_⟩
  · intro now key values c push absent
    rcases @effect_push_of_none target now _ _ _ _ push absent with ⟨bound, deadlines⟩
    rw [deadlines]
    exact ⟨bound, anchored.no_deadline absent⟩
  · intro now key start stop items answered
    exact flat.effect_lrange answered
  · intro key items found
    obtain ⟨texts, rfl⟩ := exists_texts (flat key items found)
    refine ⟨texts, rfl, ?_⟩
    rw [Rdb.writeEntry, writeItems_texts, List.length_map]

/-- One client pushes two values. -/
theorem consistent_of_reachable_push :
    let server := new.run ⟨true, 32⟩ [.dispatch 0 (.rpush "k" ["a", "b"]) fun _ => 0]
    Reachable ⟨true, 32⟩ server ∧ Consistent server.db ∧
      (effect ⟨true, 32⟩ 1 server.db (.lrange "k" 0 (-1))).1 =
        .ok (.array [.bulkString "a", .bulkString "b"]) := by
  intro server
  have reachable : Reachable ⟨true, 32⟩ server := ⟨_, rfl⟩
  have law := consistent_of_reachable reachable
  rcases law.2.2.1 1 "k" 0 (-1) [.string "a", .string "b"] rfl with ⟨texts, items, reply⟩
  obtain rfl : texts = ["a", "b"] := by
    rcases texts with _ | ⟨a, _ | ⟨b, _ | ⟨c, rest⟩⟩⟩ <;> cases items
    rfl
  exact ⟨reachable, law.1, reply⟩

end Server

end Ember
