import Ember.Config.Footprint
import Mathlib.Data.Set.Lattice
import Mathlib.Order.CompletePartialOrder

/-!
# Connections with keys of their own

Connections that work on different keys do not notice each other.  However the map calls
of any number of them are interleaved, each one ends with the bytes that it would have
sent with the server for itself, and leaves its keys as it would have left them.
-/

namespace Ember

open Ember.Base Ember.Base.Framing Ember.Database Ember.Resp

/-! ## Calls within a set of keys -/

namespace Database

/-- A call that looks at the entries of certain keys at most. -/
def Call.Within (keys : Set String) : Call → Prop
  | now | randomRange _ => True
  | dataGet key | dataContainsKey key | dataInsert key _ | dataRemove key | dataGetMut key _
  | expirationsGet key | isExpired key | expirationsContainsKey key | expirationsInsert key _
  | expirationsRemove key => key ∈ keys
  | expirationsLen | expirationsIter => False

/-- The maps hold the same for certain keys. -/
def DB.AgreeOn (keys : Set String) (db db' : DB) : Prop :=
  ∀ key ∈ keys, db.entry key = db'.entry key

variable {keys : Set String} {op : Call}

theorem Call.On.within {key : String} (on : op.On key) (member : key ∈ keys) :
    op.Within keys := by
  cases op with
  | now | randomRange => trivial
  | expirationsLen | expirationsIter => exact on.elim
  | _ =>
      cases on
      exact member

/-- A call within a set of keys looks at one of them, or at nothing. -/
theorem Call.Within.cases (within : op.Within keys) :
    (∃ key ∈ keys, op.On key) ∨
      ∀ env, ∃ answer, ∀ db : DB, op.step env db = (answer, db) := by
  cases op with
  | now => exact Or.inr fun env => ⟨env.now, fun _ => rfl⟩
  | randomRange total => exact Or.inr fun env => ⟨env.skip % total, fun _ => rfl⟩
  | expirationsLen | expirationsIter => exact within.elim
  | _ => exact Or.inl ⟨_, within, rfl⟩

theorem DB.entry_putEntry_self (db : DB) (key : String) (entry : Entry) :
    (db.putEntry key entry).entry key = entry := by
  simp only [DB.entry, putEntry, FiniteMap.lookup_put_if, if_pos]

/-- A call cannot tell maps apart that agree on its keys, and changes only these. -/
theorem unwinding_calls : Unwinding Call.step Call.Within DB.AgreeOn Disjoint where
  consistent := by
    intro keys op db db' env within agree
    rcases within.cases with ⟨key, member, on⟩ | silent
    · rcases on.actsOn env with ⟨f, acts⟩
      dsimp only at acts
      have same := agree key member
      rw [acts, acts, same]
      refine ⟨rfl, fun key' member' => ?_⟩
      by_cases this : key' = key
      · rw [this, DB.entry_putEntry_self, DB.entry_putEntry_self]
      · rw [DB.entry_putEntry _ this, DB.entry_putEntry _ this]
        exact agree key' member'
    · rcases silent env with ⟨answer, reads⟩
      rw [reads, reads]
      exact ⟨rfl, agree⟩
  respects := by
    intro keys others op db db' env apart within agree
    rcases within.cases with ⟨key, member, on⟩ | silent
    · rcases on.actsOn env with ⟨f, acts⟩
      dsimp only at acts
      intro key' member'
      have different : key' ≠ key := by
        rintro rfl
        exact Set.disjoint_left.mp apart member' member
      rw [acts, DB.entry_putEntry _ different]
      exact agree key' member'
    · rcases silent env with ⟨answer, reads⟩
      rw [reads]
      exact agree

end Database

/-! ## Connections within a set of keys -/

/-- A command that works on one of certain keys, or on none. -/
def Command.Within (keys : Set String) (c : Command) : Prop :=
  ∀ key, c.key = some key → key ∈ keys

theorem covers_within (target : Target) (keys : Set String) :
    Covers (.maps target) (Command.Within keys) (Call.Within keys) where
  clock := ⟨trivial, fun _ => trivial⟩
  operation := by
    intro c prog within found
    apply (Isolation.calls_operation found).mono
    rintro op ⟨key, named, on⟩
    exact on.within (within key named)

/-- Any number of connections, each with keys of its own, under every order of their map
calls: each comes to what it would come to alone, with the same readings of the clock,
and so do its keys.  The keys of nobody stay as they were. -/
theorem tenants_isolated (spill : Spill UInt8) (target : Target) (db : DB)
    (inputs : List (List ReadEvent)) (keys : ℕ → Set String)
    (own : ∀ i events, inputs[i]? = some events → ∀ resp, .frame resp ∈ requests target events [] →
      Asks target (Command.Within (keys i)) resp)
    (apart : ∀ i < inputs.length, ∀ j < inputs.length, j ≠ i → Disjoint (keys i) (keys j))
    (schedule : List (ℕ × Env)) :
    let final := Pool.run Call.step ⟨db, inputs.map (Task.connection spill (.maps target))⟩ schedule
    (∀ i events, inputs[i]? = some events →
      let alone := Pool.run Call.step ⟨db, [Task.connection spill (.maps target) events]⟩
        (Pool.ownTurns i schedule)
      final.threads[i]? = alone.threads[0]? ∧ DB.AgreeOn (keys i) final.shared alone.shared) ∧
    ∀ key, (∀ i < inputs.length, key ∉ keys i) → final.shared.entry key = db.entry key := by
  intro final
  let pool : Pool DB Call Call.Response (Exit × Connection Client) :=
    ⟨db, inputs.map (Task.connection spill (.maps target))⟩
  have labelled : pool.Labelled Call.Within keys := by
    intro i thread found
    rw [List.getElem?_map, Option.map_eq_some_iff] at found
    rcases found with ⟨events, listed, rfl⟩
    exact Task.calls_connection (covers_within target (keys i)) (own i events listed)
  have size : pool.threads.length = inputs.length := List.length_map _
  constructor
  · intro i events listed alone
    have start : Pool.Alike DB.AgreeOn (keys i) i pool
        ⟨db, [Task.connection spill (.maps target) events]⟩ := by
      constructor
      · rw [List.getElem?_map, listed]
        rfl
      · exact fun _ _ => rfl
    have inside := (List.getElem?_eq_some_iff.mp listed).1
    have separate : ∀ j < pool.threads.length, j ≠ i → Disjoint (keys i) (keys j) := by
      rw [size]
      exact apart i inside
    have alike := start.run unwinding_calls labelled separate schedule
    exact ⟨alike.thread, alike.shared⟩
  · intro key free
    have untouched : DB.AgreeOn {key} final.shared db := by
      apply Pool.agree_run unwinding_calls labelled fun _ _ => rfl
      intro i inside
      rw [Set.disjoint_singleton_left]
      exact free i (size ▸ inside)
    exact untouched key rfl

/-- A connection that deletes its key while another one sets a key of its own for a
second, each with its calls between those of the other. -/
theorem tenants_isolated_delete :
    let delete := [ReadEvent.bytes (utf8Bytes "DELETE a\r\n")]
    let set := [ReadEvent.bytes (utf8Bytes "SET b v PX 1000\r\n")]
    let db : DB := ⟨FiniteMap.ofList [("a", .string "v"), ("c", .string "w")], ∅⟩
    let schedule := [0, 1, 1, 0, 1, 0, 1, 0].map fun i => (i, Env.at i)
    let final := Pool.run Call.step
      ⟨db, [delete, set].map (Task.connection .atFlush (.maps ⟨true, 24⟩))⟩ schedule
    let alone := fun i events => Pool.run Call.step
      ⟨db, [Task.connection .atFlush (.maps ⟨true, 24⟩) events]⟩ (Pool.ownTurns i schedule)
    final.threads[0]? = (alone 0 delete).threads[0]? ∧
    final.threads[1]? = (alone 1 set).threads[0]? ∧
    final.shared.entry "b" = (alone 1 set).shared.entry "b" ∧
    (final.shared.entry "b").1 = some (.string "v") ∧
    final.shared.entry "c" = db.entry "c" := by
  intro delete set db schedule final alone
  let keys : ℕ → Set String := fun i => if i = 0 then {"a"} else {"b"}
  have own : ∀ i events, [delete, set][i]? = some events → ∀ resp,
      .frame resp ∈ requests ⟨true, 24⟩ events [] →
      Asks ⟨true, 24⟩ (Command.Within (keys i)) resp := by
    rintro (_ | _ | i) events listed resp member now cmd extracted key named
    · cases listed
      cases List.mem_singleton.mp member
      cases extracted
      cases named
      exact rfl
    · cases listed
      cases List.mem_singleton.mp member
      cases extracted
      cases named
      exact rfl
    · cases listed
  have apart : ∀ i < 2, ∀ j < 2, j ≠ i → Disjoint (keys i) (keys j) := by
    rintro (_ | _ | i) inside (_ | _ | j) inside' different
    all_goals first | omega | simp [keys]
  have nobody : ∀ i < 2, "c" ∉ keys i := by
    intro i inside
    simp only [keys]
    split <;> simp
  have isolated := tenants_isolated .atFlush ⟨true, 24⟩ db [delete, set] keys own apart schedule
  refine ⟨(isolated.1 0 delete rfl).1, (isolated.1 1 set rfl).1,
    (isolated.1 1 set rfl).2 "b" rfl, by decide +kernel, isolated.2 "c" nobody⟩

end Ember
