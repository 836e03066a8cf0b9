import Mathlib.Data.Finmap

/-!
# Finite maps

Finite maps whose values all have one type, and the lists that traverse them: an
iteration over a hash map visits every entry once, in an order nobody controls.
-/

namespace Ember.Base

universe u v

/-- A finite map with values in one type. -/
abbrev FiniteMap (κ : Type u) (α : Type v) := Finmap fun _ : κ => α

namespace FiniteMap

variable {κ : Type u} {α : Type v} [DecidableEq κ]

theorem lookup_insert_if (map : FiniteMap κ α) (key key' : κ) (value : α) :
    (map.insert key value).lookup key' = if key' = key then some value else map.lookup key' := by
  split
  next same => rw [same, Finmap.lookup_insert]
  next other => exact Finmap.lookup_insert_of_ne map other

theorem lookup_erase_if (map : FiniteMap κ α) (key key' : κ) :
    (map.erase key).lookup key' = if key' = key then none else map.lookup key' := by
  split
  next same => rw [same, Finmap.lookup_erase]
  next other => exact Finmap.lookup_erase_ne other

theorem erase_eq_self {map : FiniteMap κ α} {key : κ} (missing : map.lookup key = none) :
    map.erase key = map := by
  apply Finmap.ext_lookup
  intro key'
  rw [lookup_erase_if]
  split
  next same => rw [same, missing]
  next => rfl

/-- The map with the entry of one key replaced. -/
def put (map : FiniteMap κ α) (key : κ) : Option α → FiniteMap κ α
  | some value => map.insert key value
  | none => map.erase key

@[simp]
theorem put_some (map : FiniteMap κ α) (key : κ) (value : α) :
    map.put key (some value) = map.insert key value :=
  rfl

@[simp]
theorem put_none (map : FiniteMap κ α) (key : κ) : map.put key none = map.erase key :=
  rfl

theorem lookup_put_if (map : FiniteMap κ α) (key key' : κ) (entry : Option α) :
    (map.put key entry).lookup key' = if key' = key then entry else map.lookup key' := by
  cases entry with
  | none => exact lookup_erase_if map key key'
  | some value => exact lookup_insert_if map key key' value

@[simp]
theorem put_lookup_self (map : FiniteMap κ α) (key : κ) : map.put key (map.lookup key) = map := by
  apply Finmap.ext_lookup
  intro key'
  rw [lookup_put_if]
  split
  next same => rw [same]
  next => rfl

theorem put_comm (map : FiniteMap κ α) {key key' : κ} (different : key ≠ key')
    (entry entry' : Option α) :
    (map.put key entry).put key' entry' = (map.put key' entry').put key entry := by
  apply Finmap.ext_lookup
  intro other
  simp only [lookup_put_if]
  split
  next same => rw [if_neg (same ▸ different.symm)]
  next => rfl

/-- An iteration over a map: every entry once, in whatever order. -/
structure Traverses (order : List (κ × α)) (map : FiniteMap κ α) : Prop where
  distinct : (order.map Prod.fst).Nodup
  mem_iff : ∀ {key value}, (key, value) ∈ order ↔ map.lookup key = some value

theorem Traverses.notMem_keys {order : List (κ × α)} {map : FiniteMap κ α}
    (traverses : Traverses order map) {key : κ} (missing : map.lookup key = none) :
    key ∉ order.map Prod.fst := by
  intro member
  rcases List.mem_map.mp member with ⟨⟨key, value⟩, inside, rfl⟩
  rw [traverses.mem_iff.mp inside] at missing
  cases missing

theorem Traverses.forall_lookup_eq_none_iff {order : List (κ × α)} {map : FiniteMap κ α}
    (traverses : Traverses order map) (P : κ → Prop) :
    (∀ key, P key → map.lookup key = none) ↔ ∀ entry ∈ order, ¬P entry.1 := by
  constructor
  · intro free entry member reserved
    have missing := free entry.1 reserved
    rw [traverses.mem_iff.mp member] at missing
    cases missing
  · intro free key reserved
    by_contra present
    rcases Option.ne_none_iff_exists'.mp present with ⟨value, found⟩
    exact free (key, value) (traverses.mem_iff.mpr found) reserved

/-- The map with given entries, of which the first one for a key counts. -/
def ofList (entries : List (κ × α)) : FiniteMap κ α :=
  entries.foldr (fun entry map => map.insert entry.1 entry.2) ∅

theorem traverses_ofList {entries : List (κ × α)} (distinct : (entries.map Prod.fst).Nodup) :
    Traverses entries (ofList entries) := by
  constructor
  · exact distinct
  · intro key value
    induction entries with
    | nil => simp [ofList]
    | cons entry rest ih =>
        rw [List.map_cons, List.nodup_cons] at distinct
        change _ ↔ ((ofList rest).insert entry.1 entry.2).lookup key = some value
        rw [lookup_insert_if, List.mem_cons, Prod.ext_iff]
        split
        next same =>
          have absent : (key, value) ∉ rest :=
            fun later => distinct.1 (List.mem_map.mpr ⟨_, later, same⟩)
          rw [or_iff_left absent, Option.some.injEq, and_iff_right same, eq_comm]
        next other => simp [other, ih distinct.2]

/-- A map that has the entries of a list at some keys, and nothing at others. -/
theorem traverses_of_keys {entries : List (κ × α)} {map : FiniteMap κ α} {keys : List κ}
    (distinct : (entries.map Prod.fst).Nodup) (listed : ∀ entry ∈ entries, entry.1 ∈ keys)
    (inside : ∀ key ∈ keys, map.lookup key = (ofList entries).lookup key)
    (outside : ∀ key, key ∉ keys → map.lookup key = none) : Traverses entries map := by
  refine ⟨distinct, fun {key value} => ?_⟩
  rw [(traverses_ofList distinct).mem_iff]
  by_cases member : key ∈ keys
  · rw [inside key member]
  · rw [outside key member]
    constructor
    · intro found
      exact absurd (listed _ ((traverses_ofList distinct).mem_iff.mpr found)) member
    · intro found
      cases found

end FiniteMap

end Ember.Base
