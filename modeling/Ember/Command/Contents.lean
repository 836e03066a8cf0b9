import Ember.Command.Server

/-!
# What the maps of a server hold

Where a value or a deadline comes from that a command leaves behind, and what
follows for the maps of a running server: they hold texts and lists of texts,
whatever commands its clients sent; empty lists come from pushes without values,
and deadlines from the commands that give one.
-/

namespace Ember

open Ember.Base Ember.Database Dispatcher

/-! ## Values that commands store -/

/-- A command gives a key a deadline, if it succeeds. -/
def Command.Schedules (key : String) : Command → Prop
  | .set key' _ expiresAt => key = key' ∧ expiresAt.isSome
  | .expire key' _ _ => key = key'
  | _ => False

namespace Dispatcher

variable {target : Target} {now : Instant} {db : DB}

/-- A value that a plain command leaves was there before, or is the text of a SET,
or is a list of the values of a push and those that were there, in some order. -/
theorem lookup_effect {c : Command} (plain : ¬c.Controls) {key : String} {value : RedisObject}
    (found : (effect target now db c).2.data.lookup key = some value) :
    db.data.lookup key = some value ∨ (∃ text, value = .string text) ∨
      ∃ values items result, (c = .lpush key values ∨ c = .rpush key values) ∧
        (items = [] ∨ db.data.lookup key = some (.list items)) ∧ value = .list result ∧
          result.Perm (values.map .string ++ items) := by
  have change := effect_change target now db plain
  generalize (effect target now db c).2 = db' at found change
  cases change with
  | none | scheduled => exact Or.inl found
  | settled key' => exact Or.inl ((DB.Reaped.settle now db key').lookup_of_some found)
  | bound key' text expiresAt =>
      rw [DB.lookup_bindKey_data] at found
      split at found
      · exact Or.inr (Or.inl ⟨text, (Option.some.inj found).symm⟩)
      · exact Or.inl found
  | evicted key' =>
      rw [DB.lookup_evict_data] at found
      split at found
      · cases found
      · exact Or.inl found
  | @pushed _ key' values items result push old perm =>
      rw [FiniteMap.lookup_insert_if] at found
      split at found
      next same =>
        subst same
        exact Or.inr (Or.inr ⟨values, items, result, push, old.imp_left And.left,
          (Option.some.inj found).symm, perm⟩)
      next => exact Or.inl found

/-- A deadline that a plain command leaves was there before, or the command gives
the key one. -/
theorem lookup_effect_expirations {c : Command} (plain : ¬c.Controls) {key : String}
    {deadline : Instant}
    (found : (effect target now db c).2.expirations.lookup key = some deadline) :
    db.expirations.lookup key = some deadline ∨ c.Schedules key := by
  have change := effect_change target now db plain
  generalize (effect target now db c).2 = db' at found change
  cases change with
  | none | pushed => exact Or.inl found
  | settled key' => exact Or.inl ((DB.Reaped.settle now db key').deadline_of_some found)
  | bound key' text expiresAt =>
      rw [DB.lookup_bindKey_expirations] at found
      split at found
      next same => exact Or.inr ⟨same, Option.isSome_iff_exists.mpr ⟨_, found⟩⟩
      next => exact Or.inl found
  | evicted key' =>
      rw [DB.lookup_evict_expirations] at found
      split at found
      · cases found
      · exact Or.inl found
  | @scheduled key' expiresAt option present =>
      rw [FiniteMap.lookup_insert_if] at found
      split at found
      next same => exact Or.inr same
      next => exact Or.inl found

end Dispatcher

/-! ## Invariants of runs -/

/-- Lists hold texts only. -/
def Flat (db : DB) : Prop :=
  ∀ key items, db.data.lookup key = some (.list items) → ∀ item ∈ items, ∃ s, item = .string s

/-- No key is bound to a list without items. -/
def NoEmptyList (db : DB) : Prop :=
  ∀ key, db.data.lookup key ≠ some (.list [])

/-- No key with a given property has a deadline. -/
def NoDeadline (P : String → Prop) (db : DB) : Prop :=
  ∀ key, P key → db.expirations.lookup key = none

section Kept

variable {target : Target} {now : Instant} {db db' : DB} {c : Command}

theorem Flat.of_effect (flat : Flat db) (plain : ¬c.Controls) :
    Flat (Dispatcher.effect target now db c).2 := by
  intro key items found item member
  rcases lookup_effect plain found with old | ⟨text, ⟨⟩⟩ |
    ⟨values, old, result, -, before, ⟨⟩, perm⟩
  · exact flat key items old item member
  · rcases List.mem_append.mp (perm.subset member) with new | kept
    · rcases List.mem_map.mp new with ⟨s, -, rfl⟩
      exact ⟨s, rfl⟩
    · rcases before with rfl | before
      · cases kept
      · exact flat key old before item kept

theorem Flat.of_reaped (flat : Flat db) (reaped : DB.Reaped now db db') : Flat db' :=
  fun key items found => flat key items (reaped.lookup_of_some found)

variable {P : String → Prop}

theorem NoDeadline.of_effect (free : NoDeadline P db) (plain : ¬c.Controls)
    (schedules : ∀ key, c.Schedules key → ¬P key) :
    NoDeadline P (Dispatcher.effect target now db c).2 := by
  intro key member
  apply Option.eq_none_iff_forall_ne_some.mpr
  intro deadline found
  rcases lookup_effect_expirations plain found with old | new
  · cases (free key member).symm.trans old
  · exact schedules key new member

theorem NoDeadline.of_reaped (free : NoDeadline P db) (reaped : DB.Reaped now db db') :
    NoDeadline P db' := by
  intro key member
  apply Option.eq_none_iff_forall_ne_some.mpr
  intro deadline found
  cases (free key member).symm.trans (reaped.deadline_of_some found)

end Kept

/-- A push of no values. -/
def Command.PushesNothing : Command → Prop
  | .lpush _ [] | .rpush _ [] => True
  | _ => False

namespace Server

variable {target : Target}

theorem flat_of_reachable {server : Server} (reachable : Reachable target server) :
    Flat server.db :=
  holds_of_reachable (fun _ _ found => by cases found)
    (fun _ _ _ plain flat => flat.of_effect plain)
    (fun _ _ _ reaped flat => flat.of_reaped reaped) reachable

/-- Without pushes of no values there are no empty lists. -/
theorem noEmptyList_of_run {events : List Event}
    (within : ∀ event ∈ events, event.Within fun c => ¬c.PushesNothing) :
    NoEmptyList (new.run target events).db := by
  refine holds_run (fun key found => ?_) ?_ ?_ within
  · cases found
  · intro now db c plain pushes noEmpty key found
    rcases lookup_effect plain found with old | ⟨text, ⟨⟩⟩ |
      ⟨values, old, result, push, before, ⟨⟩, perm⟩
    · exact noEmpty key old
    · rcases List.append_eq_nil_iff.mp perm.nil_eq.symm with ⟨noValues, -⟩
      rw [List.map_eq_nil_iff.mp noValues] at push
      rcases push with rfl | rfl <;> exact pushes trivial
  · intro now db db' reaped noEmpty key found
    exact noEmpty key (reaped.lookup_of_some found)

/-- Keys that no command gives a deadline never have one. -/
theorem noDeadline_of_run {P : String → Prop} {events : List Event}
    (within : ∀ event ∈ events, event.Within fun c => ∀ key, c.Schedules key → ¬P key) :
    NoDeadline P (new.run target events).db :=
  holds_run (fun _ _ => rfl) (fun _ _ _ plain schedules free => free.of_effect plain schedules)
    (fun _ _ _ reaped free => free.of_reaped reaped) within

end Server

end Ember
