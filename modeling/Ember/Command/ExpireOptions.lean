import Ember.Command.Transaction
import Mathlib.Order.WithBot
import Mathlib.Order.Lattice.Nat
import Mathlib.Data.List.Perm.Basic

/-!
# The options of EXPIRE

A key without a deadline lives for ever, so its deadline is taken as plus infinity.
In this order GT leaves the later of the old and the new deadline.  LT leaves the
earlier one only where there is an old deadline: a key without one keeps having
none.  The updates under one of these options commute all the same.
-/

namespace Ember.Dispatcher

open Ember.Base Ember.Database Ember.Resp

/-- Deadlines in their order, in which none is the last. -/
def limit : Option Instant → WithTop Instant
  | none => ⊤
  | some deadline => deadline

/-- The maps after a key is given deadlines under an option, each at its time. -/
def expireAll (target : Target) (key option : String) (updates : List (Instant × Instant))
    (db : DB) : DB :=
  updates.foldl
    (fun db update => (effect target update.1 db (.expire key update.2 (some option))).2) db

section

variable {target : Target} {now : Instant} {db : DB} {key : String}

theorem data_effect_expire (expiresAt : Instant) (option : Option String) :
    (effect target now db (.expire key expiresAt option)).2.data = db.data := by
  rw [effect_expire, DB.exec_expire]
  split
  · split <;> rfl
  · rfl

theorem lookup_effect_expire_other {other : String} (different : other ≠ key)
    (expiresAt : Instant) (option : Option String) :
    (effect target now db (.expire key expiresAt option)).2.expirations.lookup other =
      db.expirations.lookup other := by
  rw [effect_expire, DB.exec_expire]
  split
  · split
    · exact Finmap.lookup_insert_of_ne db.expirations different
    · rfl
    · rfl
  · rfl

theorem lookup_effect_expire (present : (db.data.lookup key).isSome) (expiresAt : Instant)
    (option : Option String) :
    (effect target now db (.expire key expiresAt option)).2.expirations.lookup key =
      if DB.replacesDeadline expiresAt option (db.expirations.lookup key) = some true
        then some expiresAt else db.expirations.lookup key := by
  rw [effect_expire, DB.exec_expire, if_pos present]
  cases DB.replacesDeadline expiresAt option (db.expirations.lookup key) with
  | none => rfl
  | some replaces =>
      cases replaces with
      | false => rfl
      | true => exact Finmap.lookup_insert db.expirations

/-! ## One update -/

theorem deadline_nx (present : (db.data.lookup key).isSome) (expiresAt : Instant) :
    (effect target now db (.expire key expiresAt (some "NX"))).2.expirations.lookup key =
      if db.expirations.lookup key = none then some expiresAt
        else db.expirations.lookup key := by
  rw [lookup_effect_expire present]
  cases db.expirations.lookup key <;> rfl

theorem deadline_xx (present : (db.data.lookup key).isSome) (expiresAt : Instant) :
    (effect target now db (.expire key expiresAt (some "XX"))).2.expirations.lookup key =
      if db.expirations.lookup key = none then none else some expiresAt := by
  rw [lookup_effect_expire present]
  cases db.expirations.lookup key <;> rfl

theorem deadline_gt (present : (db.data.lookup key).isSome) (expiresAt : Instant) :
    (effect target now db (.expire key expiresAt (some "GT"))).2.expirations.lookup key =
      (db.expirations.lookup key).map (max · expiresAt) := by
  rw [lookup_effect_expire present]
  cases db.expirations.lookup key with
  | none => rfl
  | some deadline =>
      have replaces : DB.replacesDeadline expiresAt (some "GT") (some deadline) =
          some (decide (deadline < expiresAt)) := rfl
      rw [replaces, Option.map_some]
      rcases lt_or_ge deadline expiresAt with earlier | later
      · rw [if_pos (congrArg some (decide_eq_true earlier)), max_eq_right earlier.le]
      · rw [if_neg fun same => later.not_gt (of_decide_eq_true (Option.some.inj same)),
          max_eq_left later]

theorem deadline_lt (present : (db.data.lookup key).isSome) (expiresAt : Instant) :
    (effect target now db (.expire key expiresAt (some "LT"))).2.expirations.lookup key =
      (db.expirations.lookup key).map (min · expiresAt) := by
  rw [lookup_effect_expire present]
  cases db.expirations.lookup key with
  | none => rfl
  | some deadline =>
      have replaces : DB.replacesDeadline expiresAt (some "LT") (some deadline) =
          some (decide (expiresAt < deadline)) := rfl
      rw [replaces, Option.map_some]
      rcases lt_or_ge expiresAt deadline with earlier | later
      · rw [if_pos (congrArg some (decide_eq_true earlier)), min_eq_right earlier.le]
      · rw [if_neg fun same => later.not_gt (of_decide_eq_true (Option.some.inj same)),
          min_eq_left later]

end

theorem limit_map_max (deadline : Option Instant) (expiresAt : Instant) :
    limit (deadline.map (max · expiresAt)) = max (limit deadline) expiresAt := by
  cases deadline with
  | none => exact (max_eq_left le_top).symm
  | some deadline => exact WithTop.coe_max deadline expiresAt

/-- The minimum needs a deadline to start from. -/
theorem limit_map_min_iff (deadline : Option Instant) (expiresAt : Instant) :
    limit (deadline.map (min · expiresAt)) = min (limit deadline) expiresAt ↔
      deadline ≠ none := by
  cases deadline with
  | none =>
      have infinite : (⊤ : WithTop Instant) ≠ min ⊤ (expiresAt : WithTop Instant) := by
        rw [min_eq_right le_top]
        exact WithTop.top_ne_coe
      exact iff_of_false infinite fun some => some rfl
  | some deadline => exact iff_of_true (WithTop.coe_min deadline expiresAt) nofun

/-! ## Sequences of updates -/

section

variable {target : Target} {key option : String}

theorem data_expireAll (updates : List (Instant × Instant)) (db : DB) :
    (expireAll target key option updates db).data = db.data := by
  induction updates generalizing db with
  | nil => rfl
  | cons update rest ih => exact (ih _).trans (data_effect_expire update.2 (some option))

/-- Where one update combines the deadlines, a sequence of updates folds them. -/
theorem lookup_expireAll {combine : Instant → Instant → Instant}
    (single : ∀ {db : DB} {now : Instant}, (db.data.lookup key).isSome → ∀ expiresAt,
      (effect target now db (.expire key expiresAt (some option))).2.expirations.lookup key =
        (db.expirations.lookup key).map (combine · expiresAt))
    (updates : List (Instant × Instant)) {db : DB} (present : (db.data.lookup key).isSome) :
    (expireAll target key option updates db).expirations.lookup key =
      updates.foldl (fun deadline update => deadline.map (combine · update.2))
        (db.expirations.lookup key) := by
  induction updates generalizing db with
  | nil => rfl
  | cons update rest ih =>
      have kept := @data_effect_expire target update.1 db key update.2 (some option)
      rw [expireAll, List.foldl_cons, List.foldl_cons, ← single present]
      exact ih (kept ▸ present)

/-- Updates that combine deadlines in a commutative way may be made in any order. -/
theorem foldl_map_perm {combine : Instant → Instant → Instant}
    (swap : ∀ a b c, combine (combine a b) c = combine (combine a c) b)
    {updates updates' : List (Instant × Instant)} (reordered : updates.Perm updates')
    (deadline : Option Instant) :
    updates.foldl (fun deadline update => deadline.map (combine · update.2)) deadline =
      updates'.foldl (fun deadline update => deadline.map (combine · update.2)) deadline := by
  apply reordered.foldl_eq'
  intro first _ second _ deadline
  rw [Option.map_map, Option.map_map]
  apply congrArg (Option.map · deadline)
  funext start
  exact swap start first.2 second.2

end

/-- EXPIRE of a key that is present: GT leaves the maximum of the deadlines, NX and XX
replace a missing or an existing deadline, and LT leaves the minimum exactly where
there is a deadline before.  Nothing else changes, and updates under GT or under LT
may be made in any order. -/
theorem expire_options (target : Target) (now : Instant) {db : DB} {key : String}
    (present : (db.data.lookup key).isSome) (expiresAt : Instant) :
    let deadline := db.expirations.lookup key
    let result := fun option => (effect target now db (.expire key expiresAt (some option))).2
    let left := fun option => (result option).expirations.lookup key
    limit (left "GT") = max (limit deadline) expiresAt ∧
      (limit (left "LT") = min (limit deadline) expiresAt ↔ deadline ≠ none) ∧
      left "NX" = (if deadline = none then some expiresAt else deadline) ∧
      left "XX" = (if deadline = none then none else some expiresAt) ∧
      (∀ option, (result option).data = db.data ∧ ∀ other ≠ key,
        (result option).expirations.lookup other = db.expirations.lookup other) ∧
      ∀ option ∈ ["GT", "LT"], ∀ updates updates' : List (Instant × Instant),
        updates.Perm updates' →
          (expireAll target key option updates db).data = db.data ∧
            (expireAll target key option updates db).expirations.lookup key =
              (expireAll target key option updates' db).expirations.lookup key := by
  intro deadline result left
  have greater : limit (left "GT") = max (limit deadline) expiresAt := by
    rw [← limit_map_max]
    exact congrArg limit (deadline_gt present expiresAt)
  have less : limit (left "LT") = min (limit deadline) expiresAt ↔ deadline ≠ none := by
    rw [← limit_map_min_iff deadline expiresAt]
    exact Eq.congr_left (congrArg limit (deadline_lt present expiresAt))
  refine ⟨greater, less, deadline_nx present expiresAt, deadline_xx present expiresAt, ?_, ?_⟩
  · intro option
    constructor
    · exact data_effect_expire expiresAt (some option)
    · intro other different
      exact lookup_effect_expire_other different expiresAt (some option)
  · intro option member updates updates' reordered
    refine ⟨data_expireAll updates db, ?_⟩
    rcases List.mem_pair.mp member with rfl | rfl
    · rw [lookup_expireAll deadline_gt updates present,
        lookup_expireAll deadline_gt updates' present]
      exact foldl_map_perm max_right_comm reordered _
    · rw [lookup_expireAll deadline_lt updates present,
        lookup_expireAll deadline_lt updates' present]
      exact foldl_map_perm min_right_comm reordered _

/-- An earlier deadline replaces a later one. -/
theorem expire_options_earlier :
    let db : DB := ⟨FiniteMap.put ∅ "k" (some (.string "v")), FiniteMap.put ∅ "k" (some 9)⟩
    (db.data.lookup "k").isSome ∧
      limit ((effect ⟨true, 32⟩ 0 db (.expire "k" 5 (some "LT"))).2.expirations.lookup "k") =
        min (limit (db.expirations.lookup "k")) 5 := by
  intro db
  have present : (db.data.lookup "k").isSome := rfl
  refine ⟨present, ?_⟩
  exact (expire_options ⟨true, 32⟩ 0 present 5).2.1.mpr (by decide)

/-- LT leaves a key without a deadline as it is. -/
theorem expire_lt_unlimited :
    let db : DB := ⟨FiniteMap.put ∅ "k" (some (.string "v")), ∅⟩
    let left := (effect ⟨true, 32⟩ 0 db (.expire "k" 5 (some "LT"))).2.expirations.lookup "k"
    left = none ∧ limit left ≠ min (limit (db.expirations.lookup "k")) 5 := by
  intro db left
  have unchanged : left = none := rfl
  refine ⟨unchanged, ?_⟩
  rw [unchanged]
  decide

end Ember.Dispatcher
