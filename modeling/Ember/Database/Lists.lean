import Ember.Base.Positions
import Ember.Database.Sequential

/-!
# Lists

What the list operations leave and return when they run alone, compared with what
they are for: pushes of several values with pushes of one after the other, and
ranges with the items between two signed indices.
-/

namespace Ember.Database.DB

open Ember.Base

/-- The items of the list at a key. -/
def items (db : DB) (key : String) : List RedisObject :=
  match db.data.lookup key with
  | some (.list items) => items
  | _ => []

/-- The key is unbound or bound to a list. -/
def HoldsList (db : DB) (key : String) : Prop :=
  ∀ text, db.data.lookup key ≠ some (.string text)

theorem items_of_list {db : DB} {key : String} {items : List RedisObject}
    (found : db.data.lookup key = some (.list items)) : db.items key = items := by
  rw [DB.items, found]

/-- The maps with a list stored at a key. -/
def putList (db : DB) (key : String) (items : List RedisObject) : DB :=
  { db with data := db.data.insert key (.list items) }

theorem lookup_putList (db : DB) (key : String) (items : List RedisObject) :
    (db.putList key items).data.lookup key = some (.list items) :=
  Finmap.lookup_insert db.data

theorem items_putList (db : DB) (key : String) (items : List RedisObject) :
    (db.putList key items).items key = items :=
  items_of_list (db.lookup_putList key items)

theorem holdsList_putList (db : DB) (key : String) (items : List RedisObject) :
    (db.putList key items).HoldsList key := by
  intro text other
  rw [db.lookup_putList] at other
  cases other

/-! ## Pushes -/

section Pushes

variable {db : DB} {now : Instant} {key : String} {xs ys : List RedisObject}

/-- A key without a value counts as one with the empty list. -/
theorem HoldsList.lookup_cases (holds : db.HoldsList key) :
    db.data.lookup key = some (.list (db.items key)) ∨
      db.data.lookup key = none ∧ db.items key = [] := by
  unfold items
  rcases found : db.data.lookup key with _ | (text | list)
  · exact Or.inr ⟨rfl, rfl⟩
  · exact absurd found (holds text)
  · exact Or.inl rfl

theorem putList_putList (items items' : List RedisObject) :
    (db.putList key items).putList key items' = db.putList key items' := by
  simp only [putList, Finmap.insert_insert]

theorem putList_inj : db.putList key xs = db.putList key ys ↔ xs = ys := by
  constructor
  · intro same
    rw [← db.items_putList key xs, same, items_putList]
  · rintro rfl
    rfl

theorem exec_rpush (holds : db.HoldsList key) :
    exec now (rpush key xs) db = (.ok (), db.putList key (db.items key ++ xs)) := by
  rw [rpush, exec_push]
  rcases holds.lookup_cases with found | ⟨absent, empty⟩
  · rw [found]
    rfl
  · rw [absent, empty]
    rfl

theorem exec_lpush_of_none (absent : db.data.lookup key = none) :
    exec now (lpush key xs) db = (.ok (), db.putList key xs.reverse) := by
  rw [lpush, exec_push, absent]
  rfl

theorem exec_lpush_of_list {list : List RedisObject}
    (found : db.data.lookup key = some (.list list)) :
    exec now (lpush key xs) db = (.ok (), db.putList key (xs ++ list)) := by
  rw [lpush, exec_push, found]
  rfl

theorem exec_rpush_append (holds : db.HoldsList key) (early late : Instant) :
    exec now (rpush key (xs ++ ys)) db =
      exec late (rpush key ys) (exec early (rpush key xs) db).2 := by
  rw [exec_rpush holds, exec_rpush holds, exec_rpush (db.holdsList_putList key _), items_putList,
    putList_putList, List.append_assoc]

/-- The values arrive in reverse at a new list, and as they are at one that exists. -/
theorem exec_lpush_eq_reverse_iff (holds : db.HoldsList key) :
    exec now (lpush key xs) db = (.ok (), db.putList key (xs.reverse ++ db.items key)) ↔
      db.data.lookup key = none ∨ xs.reverse = xs := by
  rcases holds.lookup_cases with found | ⟨absent, empty⟩
  · rw [exec_lpush_of_list found, Prod.mk_right_inj, putList_inj, List.append_left_inj, found]
    exact ⟨fun same => Or.inr same.symm, fun same => (same.resolve_left nofun).symm⟩
  · rw [exec_lpush_of_none absent, empty, List.append_nil]
    exact iff_of_true rfl (Or.inl absent)

/-- The second part of a batch always comes to a list that exists. -/
theorem exec_lpush_append_iff (holds : db.HoldsList key) (early late : Instant) :
    exec now (lpush key (xs ++ ys)) db =
        exec late (lpush key ys) (exec early (lpush key xs) db).2 ↔
      db.data.lookup key = none ∧ ys.reverse = ys ∨
        db.data.lookup key ≠ none ∧ xs ++ ys = ys ++ xs := by
  rcases holds.lookup_cases with found | ⟨absent, -⟩
  · rw [exec_lpush_of_list found, exec_lpush_of_list found,
      exec_lpush_of_list (db.lookup_putList key _), putList_putList, Prod.mk_right_inj, putList_inj,
      ← List.append_assoc, List.append_left_inj, found]
    simp
  · rw [exec_lpush_of_none absent, exec_lpush_of_none absent,
      exec_lpush_of_list (db.lookup_putList key _), putList_putList, Prod.mk_right_inj, putList_inj,
      List.reverse_append, List.append_left_inj, absent]
    simp

/-- Pushes of batches.  RPUSH puts a batch behind the list, in one go or in two.  LPUSH
puts the reverse of a batch in front only where the key is new or the batch reads the
same in both directions; and cutting a batch in two makes no difference only where the
second part reads the same in both directions, for a new key, or the parts commute. -/
theorem push_append_iff (holds : db.HoldsList key) (now early late : Instant)
    (xs ys : List RedisObject) :
    (exec now (rpush key xs) db = (.ok (), db.putList key (db.items key ++ xs)) ∧
      exec now (rpush key (xs ++ ys)) db =
        exec late (rpush key ys) (exec early (rpush key xs) db).2) ∧
    (exec now (lpush key xs) db = (.ok (), db.putList key (xs.reverse ++ db.items key)) ↔
      db.data.lookup key = none ∨ xs.reverse = xs) ∧
    (exec now (lpush key (xs ++ ys)) db =
        exec late (lpush key ys) (exec early (lpush key xs) db).2 ↔
      db.data.lookup key = none ∧ ys.reverse = ys ∨
        db.data.lookup key ≠ none ∧ xs ++ ys = ys ++ xs) :=
  ⟨⟨exec_rpush holds, exec_rpush_append holds early late⟩, exec_lpush_eq_reverse_iff holds,
    exec_lpush_append_iff holds early late⟩

/-- A new key gets the reverse of the batch, and single values may follow one by one. -/
theorem push_append_iff_new :
    HoldsList ⟨∅, ∅⟩ "k" ∧
      exec 0 (lpush "k" [.string "a", .string "b"]) ⟨∅, ∅⟩ =
        (.ok (), putList ⟨∅, ∅⟩ "k" [.string "b", .string "a"]) ∧
      exec 0 (lpush "k" [.string "a", .string "b"]) ⟨∅, ∅⟩ =
        exec 2 (lpush "k" [.string "b"]) (exec 1 (lpush "k" [.string "a"]) ⟨∅, ∅⟩).2 := by
  have holds : HoldsList ⟨∅, ∅⟩ "k" := nofun
  have whole := push_append_iff holds 0 1 2 [.string "a", .string "b"] []
  have parts := push_append_iff holds 0 1 2 [.string "a"] [.string "b"]
  exact ⟨holds, whole.2.1.mpr (Or.inl rfl), parts.2.2.mpr (Or.inl ⟨rfl, rfl⟩)⟩

/-- LPUSH of two values to a list of one leaves them in the order of the command, and
of one after the other in the reverse order. -/
theorem lpush_batch_unreversed :
    let one := putList ⟨∅, ∅⟩ "k" [.string "x"]
    one.HoldsList "k" ∧
      (exec 0 (lpush "k" [.string "a", .string "b"]) one).2.items "k" =
        [.string "a", .string "b", .string "x"] ∧
      (exec 0 (lpush "k" [.string "b"]) (exec 0 (lpush "k" [.string "a"]) one).2).2.items "k" =
        [.string "b", .string "a", .string "x"] :=
  ⟨holdsList_putList _ _ _, rfl, rfl⟩

end Pushes

/-! ## Ranges -/

section Ranges

variable {target : Target} {list : List RedisObject}

theorem fromEnd_eq_ok {n : ℕ} (short : n < 2 ^ 31) (index : Int32) :
    ∃ i, fromEnd target n index = .ok i ∧ i.toInt = position n index.toInt := by
  have sign : index < 0 ↔ index.toInt < 0 := Int32.lt_iff_toInt_lt
  unfold fromEnd position
  by_cases negative : index.toInt < 0
  · have lower := Int32.le_toInt index
    have length : (Int32.ofNat n).toInt = n := Int32.toInt_ofNat_of_lt short
    rw [if_pos (sign.mpr negative), if_pos negative, ← length]
    exact target.addI32_exact (by omega)
  · rw [if_neg (mt sign.mp negative), if_neg negative]
    exact ⟨index, rfl, rfl⟩

/-- The range is taken between the two positions, as unsigned numbers. -/
theorem range_eq_between (short : list.length < 2 ^ 31) (start stop : Int32) :
    ∃ s e, range target start stop list = .ok (between (asU64 s) (asU64 e) list) ∧
      s.toInt = position list.length start.toInt ∧ e.toInt = position list.length stop.toInt := by
  rcases @fromEnd_eq_ok target _ short start with ⟨s, first, atFirst⟩
  rcases @fromEnd_eq_ok target _ short stop with ⟨e, last, atLast⟩
  refine ⟨s, e, ?_, atFirst, atLast⟩
  rw [range, first, last, Outcome.ok_bind, Outcome.ok_bind, map_filter_zipIdx]
  rfl

theorem range_sublist {start stop : Int32} {items : List RedisObject}
    (computed : range target start stop list = .ok items) : items.Sublist list := by
  rcases Outcome.bind_eq_ok_iff.mp computed with ⟨first, -, computed⟩
  rcases Outcome.bind_eq_ok_iff.mp computed with ⟨last, -, computed⟩
  cases computed
  rw [map_filter_zipIdx]
  exact (List.take_sublist _ _).trans (List.drop_sublist _ _)

theorem lrangeReply_eq_list_iff {start stop : Int32} {value : Option RedisObject}
    {items : List RedisObject} :
    lrangeReply target start stop value = .ok (.list items) ↔
      ∃ list, value = some (.list list) ∧ range target start stop list = .ok items := by
  constructor
  · intro answered
    rcases value with _ | (text | list)
    · cases answered
    · cases answered
    · rcases Outcome.map_eq_ok_iff.mp answered with ⟨items, computed, ⟨⟩⟩
      exact ⟨list, rfl, computed⟩
  · rintro ⟨list, rfl, computed⟩
    rw [lrangeReply, computed, Outcome.map_ok]

/-- A position before the front is taken for one behind every end.  This is wrong for
the start of a range that is not empty, and for a stop behind a start in the list. -/
theorem range_eq_signedRange_iff (short : list.length < 2 ^ 31) (start stop : Int32) :
    range target start stop list = .ok (signedRange start.toInt stop.toInt list) ↔
      ¬(position list.length start.toInt < 0 ∧ 0 ≤ position list.length stop.toInt ∧
        list ≠ []) ∧
      ¬(position list.length stop.toInt < 0 ∧ 0 ≤ position list.length start.toInt ∧
        position list.length start.toInt < list.length) := by
  rcases @range_eq_between target _ short start stop with ⟨s, e, computed, first, last⟩
  rw [computed, Outcome.ok.injEq]
  by_cases before : position list.length start.toInt < 0
  · have far := le_asU64_of_neg (first.trans_lt before)
    rw [between_eq_nil_iff.mpr (Or.inr (by omega)), eq_comm, signedRange_eq_nil_iff,
      ← List.length_pos_iff]
    omega
  · have start' := asU64_of_nonneg (le_of_not_gt (first ▸ before))
    by_cases beforeStop : position list.length stop.toInt < 0
    · have far := le_asU64_of_neg (last.trans_lt beforeStop)
      rw [signedRange_eq_nil_iff.mpr (Or.inr (Or.inl beforeStop)), between_eq_nil_iff]
      omega
    · have stop' := asU64_of_nonneg (le_of_not_gt (last ▸ beforeStop))
      rw [signedRange_of_nonneg (le_of_not_gt before) (le_of_not_gt beforeStop), start', stop',
        first, last]
      apply iff_of_true rfl
      omega

/-- When LRANGE agrees with the range of signed indices.  It does not exactly when the
start, counted from the end, is before the front of a list that is not empty while the
stop is not, or the stop is before the front while the start is in the list. -/
theorem lrange_eq_signedRange_iff (target : Target) {db : DB} {now : Instant} {key : String}
    (found : db.visible now key = some (.list list)) (short : list.length < 2 ^ 31)
    (start stop : Int32) :
    (exec now (lrange target key start stop) db).1 =
        .ok (.list (signedRange start.toInt stop.toInt list)) ↔
      ¬(position list.length start.toInt < 0 ∧ 0 ≤ position list.length stop.toInt ∧
        list ≠ []) ∧
      ¬(position list.length stop.toInt < 0 ∧ 0 ≤ position list.length start.toInt ∧
        position list.length start.toInt < list.length) := by
  rw [← @range_eq_signedRange_iff target _ short, exec_lrange, lrangeReply_eq_list_iff, found]
  constructor
  · rintro ⟨_, ⟨⟩, computed⟩
    exact computed
  · intro computed
    exact ⟨list, rfl, computed⟩

/-- The last two items of three. -/
theorem lrange_eq_signedRange_iff_last_two :
    let list := [.string "a", .string "b", .string "c"]
    let db := (exec 0 (rpush "k" list) ⟨∅, ∅⟩).2
    db.visible 0 "k" = some (.list list) ∧ signedRange (-2) (-1) list = list.drop 1 ∧
      (exec 0 (lrange ⟨true, 32⟩ "k" (-2) (-1)) db).1 =
        .ok (.list (signedRange (-2) (-1) list)) := by
  intro list db
  have found : db.visible 0 "k" = some (.list list) := rfl
  have law := lrange_eq_signedRange_iff ⟨true, 32⟩ found (by decide) (-2) (-1)
  exact ⟨found, rfl, law.mpr (by decide)⟩

/-- A start before the front gives nothing instead of the front of the list, and a stop
before the front gives all instead of nothing. -/
theorem lrange_before_front :
    let list := [.string "a", .string "b"]
    let db := (exec 0 (rpush "k" list) ⟨∅, ∅⟩).2
    db.visible 0 "k" = some (.list list) ∧
      (exec 0 (lrange ⟨true, 32⟩ "k" (-100) 1) db).1 = .ok (.list []) ∧
      signedRange (-100) 1 list = list ∧
      (exec 0 (lrange ⟨true, 32⟩ "k" 0 (-100)) db).1 = .ok (.list list) ∧
      signedRange 0 (-100) list = [] :=
  ⟨rfl, rfl, rfl, rfl, rfl⟩

end Ranges

end Ember.Database.DB
