import Ember.Database.Sequential

/-!
# The active expiration cycle

The cycle repeats itself at once as long as more than a quarter of its sample was
expired, with no bound on the repetitions.  Every repetition follows a pass that
has removed a deadline, so the cycle returns after at most one pass more than there
are deadlines, whatever the clock, the random offsets and the orders of iteration
are.  What the passes remove is what was sampled and expired, and nothing else.
-/

namespace Ember.Database

open Ember.Base

namespace DB

/-- One pass of the cycle: its clock reading, the maps it finds, the keys in the
order in which the iteration yields them, and the random offset. -/
structure Round where
  now : Instant
  before : DB
  order : List String
  offset : ℕ

namespace Round

/-- The keys that a pass looks at; it returns at once when there are no
deadlines. -/
def sample (round : Round) : List String :=
  if round.before.expirations.keys.card = 0 then []
  else (round.order.drop round.offset).take sampleSize

/-- The sampled keys whose deadline lies before the clock reading. -/
def expiredKeys (round : Round) : Finset String :=
  round.sample.toFinset.filter fun key => round.before.expired round.now key = true

/-- The maps without the expired keys of the sample. -/
def after (round : Round) : DB :=
  round.sample.foldl (fun db key => db.settle round.now key) round.before

/-- More than a quarter of the sample was expired. -/
def repeats (round : Round) : Bool :=
  max round.sample.length 1 < 4 * round.expiredKeys.card

/-- The iteration yields every key that has a deadline once. -/
structure Iterates (round : Round) : Prop where
  distinct : round.order.Nodup
  keys : round.order.toFinset = round.before.expirations.keys

end Round

/-- The pass that the environments of a world bring about: the first one answers the
clock reading, the third one the offset and the fourth one the iteration. -/
def World.round (world : World) : Round where
  now := (world.envs 0).now
  before := world.db
  order := (world.envs 3).order
  offset := (world.envs 2).skip % world.db.expirations.keys.card

/-- The maps and the environments that a pass leaves. -/
def World.next (world : World) : World :=
  (activeExpirationPass.run World.step world).2

/-- The passes of the cycle, at most `fuel` of them. -/
def World.rounds : ℕ → World → List Round
  | 0, _ => []
  | fuel + 1, world =>
      world.round ::
        if (activeExpirationPass.run World.step world).1 then World.rounds fuel world.next else []

variable {now : Instant}

/-! ## Removing the expired keys of a sample -/

theorem expired_settle (db : DB) (now : Instant) (key key' : String) :
    (db.settle now key).expired now key' = true ↔ key' ≠ key ∧ db.expired now key' = true := by
  unfold settle
  split
  next passed =>
    rw [expired, lookup_evict_expirations]
    split
    next same => exact iff_of_false Bool.false_ne_true fun both => both.1 same
    next other => exact (and_iff_right other).symm
  next live =>
    constructor
    · intro passed
      exact ⟨fun same => live (same ▸ passed), passed⟩
    · exact And.right

theorem lookup_settle (db : DB) (now : Instant) (key key' : String) :
    (db.settle now key).data.lookup key' =
        (if key' = key ∧ db.expired now key' = true then none else db.data.lookup key') ∧
      (db.settle now key).expirations.lookup key' =
        (if key' = key ∧ db.expired now key' = true then none
          else db.expirations.lookup key') := by
  unfold settle
  split
  next passed =>
    rw [lookup_evict_data, lookup_evict_expirations]
    by_cases same : key' = key
    · rw [if_pos same, if_pos same, if_pos ⟨same, same ▸ passed⟩, if_pos ⟨same, same ▸ passed⟩]
      exact ⟨rfl, rfl⟩
    · rw [if_neg same, if_neg same, if_neg fun both => same both.1, if_neg fun both => same both.1]
      exact ⟨rfl, rfl⟩
  next live =>
    have kept : ¬(key' = key ∧ db.expired now key' = true) := by
      rintro ⟨rfl, passed⟩
      exact live passed
    rw [if_neg kept, if_neg kept]
    exact ⟨rfl, rfl⟩

/-- Exactly the sampled keys that are expired go, from both maps. -/
theorem lookup_foldl_settle (keys : List String) (db : DB) (key : String) :
    let db' := keys.foldl (fun db key => db.settle now key) db
    db'.data.lookup key =
        (if key ∈ keys ∧ db.expired now key = true then none else db.data.lookup key) ∧
      db'.expirations.lookup key =
        (if key ∈ keys ∧ db.expired now key = true then none
          else db.expirations.lookup key) := by
  induction keys generalizing db with
  | nil => simp
  | cons first rest ih =>
      rcases ih (db.settle now first) with ⟨data, deadline⟩
      rcases lookup_settle db now first key with ⟨settledData, settledDeadline⟩
      simp only [List.foldl_cons, List.mem_cons, data, deadline, settledData, settledDeadline,
        expired_settle]
      by_cases passed : db.expired now key = true
      · by_cases here : key = first <;> simp [passed, here]
      · simp [passed]

/-- The number of keys that are removed, each key being counted once. -/
theorem card_expired_settle (db : DB) (key : String) (rest : List String) :
    ((key :: rest).toFinset.filter fun k => db.expired now k = true).card =
      (if db.expired now key = true then 1 else 0) +
        (rest.toFinset.filter fun k => (db.settle now key).expired now k = true).card := by
  have others : (rest.toFinset.filter fun k => (db.settle now key).expired now k = true) =
      (rest.toFinset.filter fun k => db.expired now k = true).erase key := by
    ext k
    rw [Finset.mem_erase, Finset.mem_filter, Finset.mem_filter, expired_settle]
    tauto
  rw [others, List.toFinset_cons, Finset.filter_insert]
  split
  next passed =>
    rw [← Finset.erase_insert_eq_erase, Nat.add_comm,
      Finset.card_erase_add_one (Finset.mem_insert_self key _)]
  next live =>
    rw [Finset.erase_eq_of_notMem, Nat.zero_add]
    intro member
    exact live (Finset.mem_filter.mp member).2

theorem run_reapSample (keys : List String) (count : ℕ) (world : World) :
    let result := (reapSample now keys count).run World.step world
    result.1 = count + (keys.toFinset.filter fun k => world.db.expired now k = true).card ∧
      result.2.db = keys.foldl (fun db key => db.settle now key) world.db := by
  induction keys generalizing count world with
  | nil => exact ⟨rfl, rfl⟩
  | cons key rest ih =>
      rw [card_expired_settle, List.foldl_cons, reapSample, Prog.perform_bind, Prog.run_call]
      cases found : (World.step (.expirationsGet key) world).1 with
      | none =>
          have live : ¬world.db.expired now key = true := by
            intro passed
            rcases expired_eq_true_iff.mp passed with ⟨deadline, present, -⟩
            cases found.symm.trans present
          rw [if_neg live, Nat.zero_add, settle, if_neg live]
          exact ih count _
      | some deadline =>
          dsimp only
          split
          next before =>
            have passed : world.db.expired now key = true :=
              expired_eq_true_iff.mpr ⟨deadline, found, before⟩
            rw [if_pos passed, ← Nat.add_assoc, settle, if_pos passed]
            exact ih (count + 1) ⟨world.db.evict key, fun i => world.envs (i + 3)⟩
          next still =>
            have live : ¬world.db.expired now key = true := by
              intro passed
              rcases expired_eq_true_iff.mp passed with ⟨deadline', present, before⟩
              cases found.symm.trans present
              exact still before
            rw [if_neg live, Nat.zero_add, settle, if_neg live]
            exact ih count _

/-! ## Passes -/

namespace Round

theorem mem_expiredKeys {round : Round} {key : String} :
    key ∈ round.expiredKeys ↔ key ∈ round.sample ∧ round.before.expired round.now key = true := by
  rw [expiredKeys, Finset.mem_filter, List.mem_toFinset]

theorem lookup_after (round : Round) (key : String) :
    round.after.data.lookup key =
        (if key ∈ round.expiredKeys then none else round.before.data.lookup key) ∧
      round.after.expirations.lookup key =
        (if key ∈ round.expiredKeys then none else round.before.expirations.lookup key) := by
  simp only [mem_expiredKeys]
  exact lookup_foldl_settle round.sample round.before key

/-- The deadlines that a pass removes and those that it leaves. -/
theorem card_after (round : Round) :
    round.after.expirations.keys.card + round.expiredKeys.card =
      round.before.expirations.keys.card := by
  have bound : round.expiredKeys ⊆ round.before.expirations.keys := by
    intro key member
    rcases expired_eq_true_iff.mp (mem_expiredKeys.mp member).2 with ⟨deadline, found, -⟩
    rw [Finmap.mem_keys, ← Finmap.lookup_isSome, found]
    rfl
  have left : round.after.expirations.keys = round.before.expirations.keys \ round.expiredKeys := by
    ext key
    rw [Finset.mem_sdiff, Finmap.mem_keys, Finmap.mem_keys, ← Finmap.lookup_isSome,
      ← Finmap.lookup_isSome, (round.lookup_after key).2]
    split
    next gone => exact iff_of_false Bool.false_ne_true fun both => both.2 gone
    next kept => exact (and_iff_left kept).symm
  rw [left]
  exact Finset.card_sdiff_add_card_eq_card bound

/-- A pass that is repeated has removed a deadline. -/
theorem card_after_lt {round : Round} (again : round.repeats = true) :
    round.after.expirations.keys.card < round.before.expirations.keys.card := by
  have counted := round.card_after
  have quarter := of_decide_eq_true again
  omega

end Round

/-- An offset below the number of keys leaves some of them to be sampled. -/
theorem sample_of_iterates {round : Round} (iterates : round.Iterates)
    (inside : round.offset < round.before.expirations.keys.card) :
    round.sample ≠ [] ∧ round.sample.Nodup := by
  have some : round.before.expirations.keys.card ≠ 0 := Nat.ne_zero_of_lt inside
  have size : round.order.length = round.before.expirations.keys.card := by
    rw [← iterates.keys, List.toFinset_card_of_nodup iterates.distinct]
  rw [Round.sample, if_neg some]
  constructor
  · apply List.ne_nil_of_length_pos
    rw [List.length_take, List.length_drop, size]
    exact Nat.lt_min.mpr ⟨by decide, Nat.sub_pos_of_lt inside⟩
  · exact (iterates.distinct.sublist (List.drop_sublist _ _)).sublist (List.take_sublist _ _)

/-- A pass removes the expired keys of its sample and decides by their number. -/
theorem run_activeExpirationPass (world : World) :
    (activeExpirationPass.run World.step world).1 = world.round.repeats ∧
      world.next.db = world.round.after := by
  unfold World.next
  simp only [activeExpirationPass, Prog.perform_bind, Prog.run_call]
  by_cases none : world.db.expirations.keys.card = 0
  · have nothing : world.round.sample = [] := if_pos none
    have empty : (World.step .expirationsLen (World.step .now world).2).1 = 0 := none
    rw [if_pos empty, Round.repeats, Round.after, Round.expiredKeys, nothing]
    exact ⟨rfl, rfl⟩
  · let sampled := (world.round.order.drop world.round.offset).take sampleSize
    have looked : world.round.sample = sampled := if_neg none
    have nonempty : ¬(World.step .expirationsLen (World.step .now world).2).1 = 0 := none
    rcases @run_reapSample world.round.now sampled 0 ⟨world.db, fun i => world.envs (i + 4)⟩ with
      ⟨count, maps⟩
    rw [Nat.zero_add] at count
    rw [if_neg nonempty, Round.repeats, Round.after, Round.expiredKeys, looked]
    simp only [Prog.run_call, Prog.run_bind]
    exact ⟨congrArg (fun expired => decide (max sampled.length 1 < 4 * expired)) count, maps⟩

theorem next_db (world : World) : world.next.db = world.round.after :=
  (run_activeExpirationPass world).2

theorem run_activeExpirationCycle_succ (fuel : ℕ) (world : World) :
    (activeExpirationCycle (fuel + 1)).run World.step world =
      if world.round.repeats then (activeExpirationCycle fuel).run World.step world.next
      else (true, world.next) := by
  rw [activeExpirationCycle, Prog.run_bind, (run_activeExpirationPass world).1]
  cases world.round.repeats <;> rfl

theorem rounds_succ (fuel : ℕ) (world : World) :
    world.rounds (fuel + 1) =
      world.round :: if world.round.repeats then world.next.rounds fuel else [] := by
  rw [World.rounds, (run_activeExpirationPass world).1]

/-! ## The cycle -/

/-- The cycle returns: there are fewer deadlines after every pass that is
repeated. -/
theorem activeExpirationCycle_returns {world : World} {fuel : ℕ}
    (enough : world.db.expirations.keys.card < fuel) :
    ((activeExpirationCycle fuel).run World.step world).1 = true := by
  induction fuel generalizing world with
  | zero => exact absurd enough (Nat.not_lt_zero _)
  | succ fuel ih =>
      rw [run_activeExpirationCycle_succ]
      split
      next again =>
        apply ih
        rw [next_db]
        exact (Round.card_after_lt again).trans_le (Nat.le_of_lt_succ enough)
      next => rfl

/-- What passes do to one key, from the maps before the first one to the maps after the
last one. -/
structure Cleans (rounds : List Round) (before final : DB) (key : String) : Prop where
  removed : ∀ round ∈ rounds, key ∈ round.expiredKeys →
    (∃ deadline, before.expirations.lookup key = some deadline ∧ deadline < round.now) ∧
      final.data.lookup key = none ∧ final.expirations.lookup key = none
  kept : (∀ round ∈ rounds, key ∉ round.expiredKeys) →
    final.data.lookup key = before.data.lookup key ∧
      final.expirations.lookup key = before.expirations.lookup key

theorem Cleans.nil (db : DB) (key : String) : Cleans [] db db key where
  removed := nofun
  kept _ := ⟨rfl, rfl⟩

theorem Cleans.cons {round : Round} {rounds : List Round} {final : DB} {key : String}
    (later : Cleans rounds round.after final key) :
    Cleans (round :: rounds) round.before final key := by
  rcases later with ⟨removed, kept⟩
  rcases round.lookup_after key with ⟨data, deadline⟩
  rw [data, deadline] at kept
  rw [deadline] at removed
  by_cases expired : key ∈ round.expiredKeys
  · -- The key goes now; it has no deadline for a later pass.
    rw [if_pos expired, if_pos expired] at kept
    rw [if_pos expired] at removed
    have gone : ∀ round ∈ rounds, key ∉ round.expiredKeys := by
      intro round member again
      rcases (removed round member again).1 with ⟨deadline, found, -⟩
      cases found
    constructor
    · intro round' member again
      rcases List.mem_cons.mp member with rfl | member
      · exact ⟨expired_eq_true_iff.mp (Round.mem_expiredKeys.mp again).2, kept gone⟩
      · exact absurd again (gone round' member)
    · intro none
      exact absurd expired (none round List.mem_cons_self)
  · rw [if_neg expired, if_neg expired] at kept
    rw [if_neg expired] at removed
    constructor
    · intro round' member again
      rcases List.mem_cons.mp member with rfl | member
      · exact absurd again expired
      · exact removed round' member again
    · intro none
      exact kept fun round' member => none round' (List.mem_cons_of_mem round member)

theorem cleans_activeExpirationCycle (fuel : ℕ) (world : World) (key : String) :
    Cleans (world.rounds fuel) world.db ((activeExpirationCycle fuel).run World.step world).2.db
      key := by
  induction fuel generalizing world with
  | zero => exact Cleans.nil world.db key
  | succ fuel ih =>
      rw [run_activeExpirationCycle_succ, rounds_succ]
      apply @Cleans.cons world.round
      rw [← next_db]
      split
      · exact ih world.next
      · exact Cleans.nil world.next.db key

/-- When the cycle returns, no deadlines are left or at most a quarter of the last
sample was expired. -/
theorem last_activeExpirationCycle {fuel : ℕ} {world : World}
    (returns : ((activeExpirationCycle fuel).run World.step world).1 = true) :
    ∃ last, (world.rounds fuel).getLast? = some last ∧
      (((activeExpirationCycle fuel).run World.step world).2.db.expirations = ∅ ∨
        4 * last.expiredKeys.card ≤ last.sample.length ∧
          (last.Iterates → last.sample ≠ [] ∧ last.sample.Nodup)) := by
  induction fuel generalizing world with
  | zero => cases returns
  | succ fuel ih =>
      rw [run_activeExpirationCycle_succ] at returns ⊢
      rw [rounds_succ]
      split
      next again =>
        rw [if_pos again] at returns
        rcases ih returns with ⟨last, isLast, quarter⟩
        exact ⟨last, by rw [List.getLast?_cons, isLast]; rfl, quarter⟩
      next ends =>
        refine ⟨world.round, rfl, ?_⟩
        by_cases none : world.db.expirations.keys.card = 0
        · left
          have left := world.round.card_after
          have keys : world.round.after.expirations.keys = ∅ :=
            Finset.card_eq_zero.mp (Nat.eq_zero_of_add_eq_zero_right (left.trans none))
          rw [next_db]
          apply Finmap.ext_lookup
          intro key
          apply Finmap.lookup_eq_none.mpr
          rw [← Finmap.mem_keys, keys]
          exact Finset.notMem_empty key
        · right
          have quarter := mt decide_eq_true ends
          refine ⟨by omega, fun iterates => ?_⟩
          exact sample_of_iterates iterates (Nat.mod_lt _ (Nat.pos_of_ne_zero none))

/-- The active expiration cycle returns and is exact, for all maps and all answers of
the environment.  It removes the sampled keys whose deadline lies before the clock
reading of their pass from both maps and leaves all other entries alone; in the end
no deadlines are left or at most a quarter of the last sample was expired. -/
theorem activeExpirationCycle_exact (world : World) {fuel : ℕ}
    (enough : world.db.expirations.keys.card < fuel) :
    let result := (activeExpirationCycle fuel).run World.step world
    let final := result.2.db
    result.1 = true ∧
      (∀ round ∈ world.rounds fuel, ∀ key ∈ round.expiredKeys,
        (∃ deadline, world.db.expirations.lookup key = some deadline ∧ deadline < round.now) ∧
          final.data.lookup key = none ∧ final.expirations.lookup key = none) ∧
      (∀ key, (∀ round ∈ world.rounds fuel, key ∉ round.expiredKeys) →
        final.data.lookup key = world.db.data.lookup key ∧
          final.expirations.lookup key = world.db.expirations.lookup key) ∧
      ∃ last, (world.rounds fuel).getLast? = some last ∧
        (final.expirations = ∅ ∨
          4 * last.expiredKeys.card ≤ last.sample.length ∧
            (last.Iterates → last.sample ≠ [] ∧ last.sample.Nodup)) := by
  intro result final
  have returns := activeExpirationCycle_returns enough
  refine ⟨returns, ?_, ?_, last_activeExpirationCycle returns⟩
  · intro round member key expired
    exact (cleans_activeExpirationCycle fuel world key).removed round member expired
  · intro key kept
    exact (cleans_activeExpirationCycle fuel world key).kept kept

/-- Two expired keys, each sampled alone, take three passes. -/
theorem activeExpirationCycle_exact_two :
    let db : DB := ⟨(FiniteMap.put ∅ "a" (some (.string "x"))).put "b" (some (.string "y")),
      (FiniteMap.put ∅ "a" (some 5)).put "b" (some 6)⟩
    let world : World := ⟨db, fun i => ⟨9, if i < 7 then ["b", "a"] else ["b"], 1⟩⟩
    db.expirations.keys.card < 3 ∧
      ((activeExpirationCycle 3).run World.step world).1 = true ∧
      (world.rounds 3).map Round.sample = [["a"], ["b"], []] := by
  intro db world
  have enough : world.db.expirations.keys.card < 3 := by decide
  refine ⟨enough, (activeExpirationCycle_exact world enough).1, ?_⟩
  decide

end DB

end Ember.Database
