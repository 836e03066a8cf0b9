import Ember.Base.Locks
import Ember.Database.Core

/-!
# The locks behind the map calls

A call on an entry of a map takes a lock and gives it back with its answer, unless the
answer is a reference into the map: then the lock is held as long as the reference lives.
One reference lives longer than its call: `get` and `lrange` look a deadline up once more
while they hold the first reference to it, and drop it before they remove anything.  Calls
that go through a whole map, `len` and iterators, take and give back locks on their way.

The programs of map calls are run here with these locks around their calls.  Which locks
there are and who takes which is left to the maps.  What matters is that a deadline is
looked up under a shared lock: then the programs keep the discipline under which nobody
waits forever.  Without the locks they are what they were.
-/

namespace Ember.Database

open Ember.Base

/-- A program of map calls with their locks. -/
abbrev GuardedProg (L : Type) := Prog (Guarded L Call) (Guarded.Response Call.Response)

/-- Which lock a call on an entry takes. -/
structure Locking (L : Type) where
  needs : Call → Option (LockMode × L)
  expirationsGet : ∀ key, ∀ need ∈ needs (.expirationsGet key), need.1 = .shared
  isExpired : ∀ key, ∀ need ∈ needs (.isExpired key), need.1 = .shared

/-- The locks held are enough for a call. -/
def Locking.Enough {L : Type} (locking : Locking L) (held : Held L) (op : Call) : Prop :=
  ∀ need ∈ locking.needs op, need ∈ held

/-- The locks that a call takes and gives back while it goes through a map. -/
structure Traversal (L : Type) [DecidableEq L] where
  prog : GuardedProg L Unit
  disciplined : prog.Disciplined (fun _ _ => False) []

/-- The calls that go through a map. -/
def Call.traverses : Call → Bool
  | expirationsLen | expirationsIter => true
  | _ => false

namespace Guards

variable {L : Type}

/-- Take a lock, where one is needed. -/
def acquire : Option (LockMode × L) → GuardedProg L Unit
  | some (mode, lock) => Prog.perform (Guarded.acquire mode lock)
  | none => return ()

/-- Give a lock back. -/
def release : Option (LockMode × L) → GuardedProg L Unit
  | some (mode, lock) => Prog.perform (Guarded.release mode lock)
  | none => return ()

/-- A map call, under the locks that are held. -/
def work (op : Call) : GuardedProg L op.Response :=
  Prog.perform (Guarded.work op)

/-- The lock of a reference to a deadline. -/
def shared (reference : Option L) : Option (LockMode × L) :=
  reference.map (LockMode.shared, ·)

end Guards

namespace Locking

open Guards

variable {L : Type} (locking : Locking L)

/-- A call under its lock. -/
def under (op : Call) : GuardedProg L op.Response := do
  acquire (locking.needs op)
  let answer ← work op
  release (locking.needs op)
  return answer

/-- The lock of a reference to the deadline of a key. -/
def reference (key : String) : Option L :=
  (locking.needs (.expirationsGet key)).map Prod.snd

variable [DecidableEq L]

/-- One call of a program that may hold a reference to a deadline.  The reference lives
until the deadline was looked up once more; any other call is made without it. -/
def around (visit : Traversal L) (held : Option L) :
    (op : Call) → GuardedProg L (op.Response × Option L)
  | .expirationsGet key => do
      release (shared held)
      acquire (shared (locking.reference key))
      match ← work (.expirationsGet key) with
      | some deadline => return (some deadline, locking.reference key)
      | none =>
          release (shared (locking.reference key))
          return (none, none)
  | .isExpired key => do
      let expired ← locking.under (.isExpired key)
      release (shared held)
      return (expired, none)
  | op => do
      release (shared held)
      if op.traverses then
        visit.prog
      return (← locking.under op, none)

/-- A program of map calls with its locks.  The calls that go through a map are known by
their number. -/
def guard {α : Type} (visits : ℕ → Traversal L) : ℕ → Option L → DbProg α → GuardedProg L α
  | _, held, .ret value => do
      release (shared held)
      return value
  | n, held, .call op next => do
      let (answer, held) ← locking.around (visits n) held op
      guard visits (n + 1) held (next answer)

end Locking

namespace Guards

variable {L : Type} [DecidableEq L] {locking : Locking L} {α β : Type}

/-! ## The discipline -/

section Discipline

variable {enough : Held L → Call → Prop} {atEnd : β → Held L} {held : Held L}
  {need : Option (LockMode × L)} {f : Unit → GuardedProg L β}

theorem disciplined_acquire (reading : ∀ hold ∈ held, hold.1 = .shared)
    (alone : held ≠ [] → ∀ lock, need ≠ some (.exclusive, lock))
    (rest : (f ()).DisciplinedTo enough atEnd (need.toList ++ held)) :
    (acquire need >>= f).DisciplinedTo enough atEnd held := by
  rcases need with _ | ⟨mode, lock⟩
  · exact rest
  · refine ⟨reading, ?_, rest⟩
    rintro rfl
    by_contra holds
    exact alone holds lock rfl

theorem disciplined_release (rest : (f ()).DisciplinedTo enough atEnd held) :
    (release need >>= f).DisciplinedTo enough atEnd (need.toList ++ held) := by
  rcases need with _ | ⟨mode, lock⟩
  · exact rest
  · refine ⟨List.mem_cons_self, ?_⟩
    rw [Option.toList_some, List.singleton_append, List.erase_cons_head]
    exact rest

omit [DecidableEq L] in
theorem reading_shared (reference : Option L) :
    ∀ hold ∈ (shared reference).toList, hold.1 = .shared := by
  cases reference with
  | none => simp [shared]
  | some lock => simp [shared]

theorem disciplined_under {op : Call} (reading : ∀ hold ∈ held, hold.1 = .shared)
    (alone : held ≠ [] → ∀ lock, locking.needs op ≠ some (.exclusive, lock)) :
    (locking.under op).DisciplinedTo locking.Enough (fun _ => held) held := by
  apply disciplined_acquire reading alone
  refine ⟨?_, fun answer => ?_⟩
  · intro need needed
    exact List.mem_append_left _ (Option.mem_toList.mpr needed)
  · exact disciplined_release rfl

theorem disciplined_under_nil (op : Call) :
    (locking.under op).Disciplined locking.Enough [] :=
  disciplined_under (by simp) (by simp)

/-- The locks on the way through a map are enough for no call, and so for any. -/
theorem disciplined_visit (visit : Traversal L) : visit.prog.Disciplined enough [] := by
  suffices weaken : ∀ {held : Held L} {prog : GuardedProg L Unit},
      prog.Disciplined (fun _ _ => False) held → prog.Disciplined enough held from
    weaken visit.disciplined
  intro held prog disciplined
  induction prog generalizing held with
  | ret value => exact disciplined
  | call op next ih =>
      cases op with
      | acquire mode lock =>
          rcases disciplined with ⟨reading, alone, rest⟩
          exact ⟨reading, alone, ih _ rest⟩
      | release mode lock => exact ⟨disciplined.1, ih _ disciplined.2⟩
      | work op => exact disciplined.1.elim

/-- A call that ends the life of a reference. -/
theorem disciplined_without (visit : Traversal L) (reference : Option L) (op : Call) :
    (do
      release (shared reference)
      if op.traverses then
        visit.prog
      return (← locking.under op, none) : GuardedProg L (op.Response × Option L)).DisciplinedTo
        locking.Enough (fun result => (shared result.2).toList) (shared reference).toList := by
  have called : (do return (← locking.under op, none) :
      GuardedProg L (op.Response × Option L)).DisciplinedTo locking.Enough
        (fun result => (shared result.2).toList) [] := by
    exact (disciplined_under_nil op).bind fun _ => rfl
  rw [← List.append_nil (shared reference).toList]
  apply disciplined_release
  split
  · exact (disciplined_visit visit).bind fun _ => called
  · exact called

theorem disciplined_around (visit : Traversal L) (reference : Option L) (op : Call) :
    (locking.around visit reference op).DisciplinedTo locking.Enough
      (fun result => (shared result.2).toList) (shared reference).toList := by
  cases op with
  | expirationsGet key =>
      rw [← List.append_nil (shared reference).toList]
      apply disciplined_release
      apply disciplined_acquire (by simp) (by simp)
      refine ⟨?_, fun found => ?_⟩
      · intro need needed
        rcases need with ⟨mode, lock⟩
        cases locking.expirationsGet key _ needed
        rw [Locking.reference, Option.mem_def.mp needed]
        exact List.mem_cons_self
      · cases found with
        | some deadline => exact List.append_nil _
        | none => exact disciplined_release rfl
  | isExpired key =>
      -- the deadline is locked once more, which needs no more than that it is only read
      have reads : ∀ lock, locking.needs (.isExpired key) ≠ some (.exclusive, lock) := by
        intro lock exclusive
        cases locking.isExpired key _ exclusive
      apply (disciplined_under (reading_shared reference) fun _ => reads).bind
      intro expired
      rw [← List.append_nil (shared reference).toList]
      exact disciplined_release rfl
  | now | randomRange | dataGet | dataContainsKey | dataInsert | dataRemove | dataGetMut
  | expirationsContainsKey | expirationsInsert | expirationsRemove | expirationsLen
  | expirationsIter => exact disciplined_without visit reference _

/-- Programs of map calls keep the discipline. -/
theorem disciplined_guard (visits : ℕ → Traversal L) (prog : DbProg α) (n : ℕ)
    (reference : Option L) :
    (locking.guard visits n reference prog).Disciplined locking.Enough
      (shared reference).toList := by
  induction prog generalizing n reference with
  | ret value =>
      rw [← List.append_nil (shared reference).toList]
      exact disciplined_release rfl
  | call op next ih =>
      apply (disciplined_around (visits n) reference op).bind
      exact fun result => ih result.1 (n + 1) result.2

end Discipline

/-! ## Without the locks -/

section Unlocked

omit [DecidableEq L] in
theorem unlock_release (need : Option (LockMode × L)) :
    (release need).expand Guarded.unlock = (.ret () : DbProg Unit) := by
  rcases need with _ | ⟨mode, lock⟩ <;> rfl

omit [DecidableEq L] in
theorem unlock_acquire (need : Option (LockMode × L)) :
    (acquire need).expand Guarded.unlock = (.ret () : DbProg Unit) := by
  rcases need with _ | ⟨mode, lock⟩ <;> rfl

omit [DecidableEq L] in
theorem unlock_under (op : Call) :
    (locking.under op).expand Guarded.unlock = perform op := by
  rw [Locking.under, Prog.expand_bind, unlock_acquire]
  refine congrArg (Prog.call op) (funext fun answer => ?_)
  change (release (locking.needs op) >>= fun _ => return answer).expand Guarded.unlock = _
  rw [Prog.expand_bind, unlock_release]
  rfl

theorem unlock_visit (visit : Traversal L) :
    visit.prog.expand Guarded.unlock = (.ret () : DbProg Unit) := by
  suffices silent : ∀ {held : Held L} {prog : GuardedProg L Unit},
      prog.Disciplined (fun _ _ => False) held →
        prog.expand Guarded.unlock = (.ret () : DbProg Unit) from
    silent visit.disciplined
  intro held prog disciplined
  induction prog generalizing held with
  | ret value => rfl
  | call op next ih =>
      cases op with
      | acquire mode lock => exact ih _ disciplined.2.2
      | release mode lock => exact ih _ disciplined.2
      | work op => exact disciplined.1.elim

theorem unlock_without (visit : Traversal L) (reference : Option L) (op : Call) :
    (do
      release (shared reference)
      if op.traverses then
        visit.prog
      return (← locking.under op, none) :
        GuardedProg L (op.Response × Option L)).expand Guarded.unlock =
      perform op >>= fun answer => return (answer, none) := by
  rw [Prog.expand_bind, unlock_release]
  have called : (do return (← locking.under op, none) :
      GuardedProg L (op.Response × Option L)).expand Guarded.unlock =
        perform op >>= fun answer => return (answer, none) := by
    rw [Prog.expand_bind, unlock_under]
    rfl
  change Prog.expand Guarded.unlock (if op.traverses then _ else _) = _
  split
  · rw [Prog.expand_bind, unlock_visit]
    exact called
  · exact called

/-- Without its locks it is one call, whose answer may be a reference. -/
theorem unlock_around (visit : Traversal L) (reference : Option L) (op : Call) :
    ∃ references : op.Response → Option L,
      (locking.around visit reference op).expand Guarded.unlock =
        perform op >>= fun answer => return (answer, references answer) := by
  cases op with
  | expirationsGet key =>
      refine ⟨fun found => found.bind fun _ => locking.reference key, ?_⟩
      rw [Locking.around, Prog.expand_bind, unlock_release]
      change (acquire (shared (locking.reference key)) >>= _).expand Guarded.unlock = _
      rw [Prog.expand_bind, unlock_acquire]
      refine congrArg (Prog.call (Call.expirationsGet key)) (funext fun found => ?_)
      cases found with
      | some deadline => rfl
      | none =>
          change (release (shared (locking.reference key)) >>= _).expand Guarded.unlock = _
          rw [Prog.expand_bind, unlock_release]
          rfl
  | isExpired key =>
      refine ⟨fun _ => none, ?_⟩
      rw [Locking.around, Prog.expand_bind, unlock_under]
      refine congrArg (perform (Call.isExpired key) >>= ·) (funext fun expired => ?_)
      rw [Prog.expand_bind, unlock_release]
      rfl
  | now | randomRange | dataGet | dataContainsKey | dataInsert | dataRemove | dataGetMut
  | expirationsContainsKey | expirationsInsert | expirationsRemove | expirationsLen
  | expirationsIter => exact ⟨fun _ => none, unlock_without visit reference _⟩

/-- Without its locks the program is what it was. -/
theorem unlock_guard (visits : ℕ → Traversal L) (prog : DbProg α) (n : ℕ) (reference : Option L) :
    (locking.guard visits n reference prog).expand Guarded.unlock = prog := by
  induction prog generalizing n reference with
  | ret value =>
      rw [Locking.guard, Prog.expand_bind, unlock_release]
      rfl
  | call op next ih =>
      rcases @unlock_around L _ locking (visits n) reference op with ⟨references, around⟩
      rw [Locking.guard, Prog.expand_bind, around, bind_assoc]
      exact congrArg (Prog.call op) (funext fun answer => ih answer (n + 1) (references answer))

end Unlocked

end Guards

/-! ## Maps that are split into shards -/

/-- The two maps, each with locks of its own. -/
inductive MapName where
  | data
  | expirations
  deriving DecidableEq

/-- One shard of one map, with a lock of its own. -/
structure Shard where
  map : MapName
  index : ℕ
  deriving DecidableEq

/-- Each key belongs to a shard of its map, which is locked shared to read an entry and
exclusively to change one. -/
def Locking.ofShards (shard : MapName → String → ℕ) : Locking Shard where
  needs
    | .dataGet key | .dataContainsKey key => some (.shared, ⟨.data, shard .data key⟩)
    | .dataInsert key _ | .dataRemove key | .dataGetMut key _ =>
        some (.exclusive, ⟨.data, shard .data key⟩)
    | .expirationsGet key | .isExpired key | .expirationsContainsKey key =>
        some (.shared, ⟨.expirations, shard .expirations key⟩)
    | .expirationsInsert key _ | .expirationsRemove key =>
        some (.exclusive, ⟨.expirations, shard .expirations key⟩)
    | .now | .randomRange _ | .expirationsLen | .expirationsIter => none
  expirationsGet := by
    rintro key need ⟨⟩
    rfl
  isExpired := by
    rintro key need ⟨⟩
    rfl

namespace Traversal

open Guards

/-- From shard to shard: the lock of one is given back when that of the next is taken. -/
def onFrom (current : Shard) : List Shard → GuardedProg Shard Unit
  | [] => release (some (.shared, current))
  | next :: rest => do
      acquire (some (.shared, next))
      release (some (.shared, current))
      onFrom next rest

theorem disciplined_onFrom (current : Shard) (shards : List Shard) :
    (onFrom current shards).Disciplined (fun _ _ => False) [(.shared, current)] := by
  induction shards generalizing current with
  | nil => exact ⟨List.mem_cons_self, List.erase_cons_head ..⟩
  | cons next rest ih =>
      refine ⟨by simp, by simp, List.mem_cons_of_mem _ List.mem_cons_self, ?_⟩
      have dropped : [(LockMode.shared, next), (.shared, current)].erase (.shared, current) =
          [(.shared, next)] := by
        by_cases same : next = current
        · rw [same, List.erase_cons_head]
        · simp [same]
      rw [dropped]
      exact ih next

/-- An iterator over some shards. -/
def iter (first : Shard) (shards : List Shard) : Traversal Shard where
  prog := do
    acquire (some (.shared, first))
    onFrom first shards
  disciplined := ⟨by simp, by simp, disciplined_onFrom first shards⟩

end Traversal

end Ember.Database
