import Ember.Database.Keys

/-!
# Updates of one key

An update writes the two maps with separate calls, so that concurrent updates of one
key can leave a pair of value and deadline that no order of them leaves.  Where EXPIRE has
no option to check, and none of the separate calls matters, a finished run leaves the pair
of a sequential order, with the writer of the value and, perhaps, the EXPIRE that wrote the
deadline at its end.
-/

namespace Ember.Database

open Ember.Base

/-- The operations that replace or remove what a key is bound to. -/
inductive Update where
  | set (value : RedisObject) (expiresAt : Option Instant)
  | delete
  | expire (expiresAt : Instant) (option : Option String)
  deriving DecidableEq

namespace Update

/-- The calls of an update. -/
def prog (key : String) : Update → DbProg (Outcome String Unit)
  | set value expiresAt => DB.set key value expiresAt
  | delete => DB.delete key
  | expire expiresAt option => DB.expire key expiresAt option

/-- The maps after updates that run one after the other. -/
def sequential (now : Instant) (key : String) (order : List Update) (db : DB) : DB :=
  order.foldl (fun db update => (DB.exec now (update.prog key) db).2) db

/-- The entry of the key after an update that runs alone. -/
def apply : Update → Entry → Entry
  | set value expiresAt, _ => ⟨some value, expiresAt⟩
  | delete, _ => ⟨none, none⟩
  | expire expiresAt option, entry =>
      if entry.value.isSome ∧
          DB.replacesDeadline expiresAt option entry.deadline = some true then
        { entry with deadline := some expiresAt }
      else
        entry

theorem entry_exec (now : Instant) (key : String) (update : Update) (db : DB) :
    (DB.exec now (update.prog key) db).2.entry key = update.apply (db.entry key) := by
  cases update with
  | set value expiresAt =>
      rw [prog, DB.exec_set]
      simp [DB.entry, apply]
  | delete =>
      rw [prog, DB.exec_delete]
      simp [DB.entry, apply]
  | expire expiresAt option =>
      rw [prog, DB.exec_expire]
      by_cases present : (db.data.lookup key).isSome
      · rcases replaces : DB.replacesDeadline expiresAt option (db.expirations.lookup key) with
          _ | _ | _ <;> simp [DB.entry, apply, present, replaces]
      · simp [DB.entry, apply, present]

theorem entry_sequential (now : Instant) (key : String) (order : List Update) (db : DB) :
    (sequential now key order db).entry key =
      order.foldl (fun entry update => update.apply entry) (db.entry key) := by
  induction order generalizing db with
  | nil => rfl
  | cons update rest ih =>
      rw [List.foldl_cons, ← entry_exec now]
      exact ih _

/-- Some order of the updates, one after the other, makes the second entry of the first. -/
inductive Yields (updates : List Update) (initial entry : Entry) : Prop
  | intro (order : List Update) (perm : order.Perm updates)
      (left : order.foldl (fun entry update => update.apply entry) initial = entry)

theorem Yields.exists_sequential_entry {updates : List Update} {key : String} {db : DB}
    {entry : Entry} (yields : Yields updates (db.entry key) entry) (now : Instant) :
    ∃ order : List Update, order.Perm updates ∧
      entry = (sequential now key order db).entry key := by
  rcases yields with ⟨order, perm, left⟩
  exact ⟨order, perm, by rw [entry_sequential, left]⟩

/-- The update writes the data map. -/
def writes : Update → Bool
  | set _ _ | delete => true
  | expire _ _ => false

/-- Updates of one key whose separate calls do not matter: EXPIRE has no option to
check, a SET that gives a deadline is the only writer of the value, and no EXPIRE runs
beside a DELETE. -/
structure Unchecked (updates : List Update) : Prop where
  plain : ∀ expiresAt option, expire expiresAt (some option) ∉ updates
  dated : (∀ value expiresAt, set value (some expiresAt) ∉ updates) ∨
    (updates.filter writes).length ≤ 1
  separate : delete ∈ updates → ∀ expiresAt option, expire expiresAt option ∉ updates

/-! ## Sequential orders -/

variable {updates : List Update}

theorem exists_last {update : Update} (member : update ∈ updates) :
    ∃ rest, (rest ++ [update]).Perm updates := by
  rcases List.append_of_mem member with ⟨before, after, rfl⟩
  exists before ++ after
  exact (List.perm_append_singleton update _).trans List.perm_middle.symm

theorem exists_last_two {first second : Update} (different : first ≠ second)
    (member : first ∈ updates) (member' : second ∈ updates) :
    ∃ rest, (rest ++ [first, second]).Perm updates := by
  rcases exists_last member' with ⟨others, perm⟩
  have inside : first ∈ others := by
    rcases List.mem_append.mp (perm.mem_iff.mpr member) with earlier | last
    · exact earlier
    · exact absurd (List.mem_singleton.mp last) different
  rcases exists_last inside with ⟨rest, perm'⟩
  exists rest
  have both := (perm'.append_right [second]).trans perm
  rwa [List.append_assoc] at both

/-- Updates that write no value leave the one that is there. -/
theorem foldl_value (silent : ∀ update ∈ updates, update.writes = false) (entry : Entry) :
    (updates.foldl (fun entry update => update.apply entry) entry).value = entry.value := by
  induction updates generalizing entry with
  | nil => rfl
  | cons update rest ih =>
      rw [List.forall_mem_cons] at silent
      rw [List.foldl_cons, ih silent.2]
      cases update with
      | expire expiresAt option =>
          rw [apply]
          split <;> rfl
      | _ => cases silent.1

/-- An unbound key has no deadline to be updated. -/
theorem foldl_of_missing (silent : ∀ update ∈ updates, update.writes = false) {entry : Entry}
    (missing : entry.value = none) :
    updates.foldl (fun entry update => update.apply entry) entry = entry := by
  induction updates with
  | nil => rfl
  | cons update rest ih =>
      rw [List.forall_mem_cons] at silent
      cases update with
      | expire expiresAt option =>
          rw [List.foldl_cons, apply, if_neg (by simp [missing])]
          exact ih silent.2
      | _ => cases silent.1

/-- A unchecked EXPIRE gives a key that is bound its deadline. -/
theorem Unchecked.apply_expire (unchecked : Unchecked updates) {expiresAt : Instant}
    {option : Option String} (member : expire expiresAt option ∈ updates) {entry entry' : Entry}
    (value : entry.value = entry'.value) (present : entry'.value ≠ none)
    (deadline : some expiresAt = entry'.deadline) :
    (expire expiresAt option).apply entry = entry' := by
  cases option with
  | some option => exact absurd member (unchecked.plain expiresAt option)
  | none =>
      rw [← value] at present
      rw [apply, if_pos ⟨Option.isSome_iff_ne_none.mpr present, rfl⟩]
      exact Entry.ext value deadline

/-- Unchecked writers of the value leave the same deadline. -/
theorem Unchecked.deadline_eq (unchecked : Unchecked updates) {first second : Update}
    (member : first ∈ updates) (member' : second ∈ updates) (isWriter : first.writes = true)
    (isWriter' : second.writes = true) (entry entry' : Entry) :
    (first.apply entry).deadline = (second.apply entry').deadline := by
  rcases unchecked.dated with undated | single
  · have none_left : ∀ update ∈ updates, update.writes = true → ∀ entry,
        (update.apply entry).deadline = none := by
      intro update inside writes entry
      rcases update with ⟨value, _ | expiresAt⟩ | _ | _
      · rfl
      · exact absurd inside (undated value expiresAt)
      · rfl
      · cases writes
    rw [none_left first member isWriter, none_left second member' isWriter']
  · have inside := List.mem_filter.mpr ⟨member, isWriter⟩
    have inside' := List.mem_filter.mpr ⟨member', isWriter'⟩
    have same : first = second := by
      match found : updates.filter writes, single with
      | [], _ => rw [found] at inside; cases inside
      | [_], _ =>
          rw [found] at inside inside'
          exact (List.mem_singleton.mp inside).trans (List.mem_singleton.mp inside').symm
    subst same
    cases first with
    | expire => cases isWriter
    | _ => rfl

end Update

/-! ## The stages of an update -/

/-- How far an update has come. -/
inductive Progress where
  | waiting (update : Update)
  | cleared (value : RedisObject) (expiresAt : Option Instant)
  | stored (value : RedisObject) (expiresAt : Instant)
  | removed
  | found (expiresAt : Instant)
  | refused (expiresAt : Instant)
  | done (update : Update)

namespace Progress

/-- The update that is under way. -/
def update : Progress → Update
  | waiting update | done update => update
  | cleared value expiresAt => .set value expiresAt
  | stored value expiresAt => .set value (some expiresAt)
  | removed => .delete
  | found expiresAt | refused expiresAt => .expire expiresAt none

/-- What is left of an update. -/
def thread (key : String) : Progress → DbProg (Outcome String Unit)
  | waiting update => update.prog key
  | cleared value expiresAt => do
      perform (.dataInsert key value)
      match expiresAt with
      | some exp =>
          perform (.expirationsInsert key exp)
          return .ok ()
      | none => return .ok ()
  | stored _ expiresAt | found expiresAt => do
      perform (.expirationsInsert key expiresAt)
      return .ok ()
  | removed => do
      perform (.expirationsRemove key)
      return .ok ()
  | refused _ => return .error "Entry not found."
  | done _ => return .ok ()

/-- The value that an update has written, if it has. -/
def wroteValue : Progress → Option (Option RedisObject)
  | stored value _ | done (.set value _) => some (some value)
  | removed | done .delete => some none
  | _ => none

/-- The deadline that an update wrote last, if it has written one. -/
def wroteDeadline : Progress → Option (Option Instant)
  | cleared _ _ | stored _ _ | done .delete => some none
  | done (.set _ expiresAt) => some expiresAt
  | done (.expire expiresAt _) => some (some expiresAt)
  | _ => none

/-- One call of an update without options, seen from the entry of its key. -/
inductive Moves : Progress → Entry → Progress → Entry → Prop
  | clear (value expiresAt entry) :
      Moves (waiting (.set value expiresAt)) entry (cleared value expiresAt)
        { entry with deadline := none }
  | store (value entry) :
      Moves (cleared value none) entry (done (.set value none)) { entry with value := some value }
  | storeDated (value expiresAt entry) :
      Moves (cleared value (some expiresAt)) entry (stored value expiresAt)
        { entry with value := some value }
  | date (value expiresAt entry) :
      Moves (stored value expiresAt) entry (done (.set value (some expiresAt)))
        { entry with deadline := some expiresAt }
  | remove (entry) : Moves (waiting .delete) entry removed { entry with value := none }
  | forget (entry) : Moves removed entry (done .delete) { entry with deadline := none }
  | find (expiresAt) {entry : Entry} (present : entry.value ≠ none) :
      Moves (waiting (.expire expiresAt none)) entry (found expiresAt) entry
  | refuse (expiresAt) {entry : Entry} (missing : entry.value = none) :
      Moves (waiting (.expire expiresAt none)) entry (refused expiresAt) entry
  | postpone (expiresAt entry) :
      Moves (found expiresAt) entry (done (.expire expiresAt none))
        { entry with deadline := some expiresAt }

section Calls

variable (env : Env) (db : DB) (key : String)

theorem entry_dataInsert (value : RedisObject) :
    (Call.step env (.dataInsert key value) db).2.entry key =
      { db.entry key with value := some value } := by
  simp [Call.step, DB.entry]

theorem entry_dataRemove :
    (Call.step env (.dataRemove key) db).2.entry key = { db.entry key with value := none } := by
  simp [Call.step, DB.entry]

theorem entry_expirationsInsert (deadline : Instant) :
    (Call.step env (.expirationsInsert key deadline) db).2.entry key =
      { db.entry key with deadline := some deadline } := by
  simp [Call.step, DB.entry]

theorem entry_expirationsRemove :
    (Call.step env (.expirationsRemove key) db).2.entry key =
      { db.entry key with deadline := none } := by
  simp [Call.step, DB.entry]

end Calls

theorem thread_step {key : String} {progress : Progress} {op : Call}
    {next : op.Response → DbProg (Outcome String Unit)}
    (here : progress.thread key = .call op next)
    (plain : ∀ expiresAt option, progress.update ≠ .expire expiresAt (some option)) (env : Env)
    (db : DB) :
    ∃ progress', next (op.step env db).1 = progress'.thread key ∧
      progress'.update = progress.update ∧
        Moves progress (db.entry key) progress' ((op.step env db).2.entry key) := by
  cases progress with
  | waiting update =>
      cases update with
      | set value expiresAt =>
          cases here
          refine ⟨cleared value expiresAt, rfl, rfl, ?_⟩
          rw [entry_expirationsRemove]
          exact .clear ..
      | delete =>
          cases here
          refine ⟨removed, rfl, rfl, ?_⟩
          rw [entry_dataRemove]
          exact .remove ..
      | expire expiresAt option =>
          rcases option with _ | option
          · cases here
            cases seen : db.data.lookup key with
            | none =>
                have answer : (Call.step env (.dataContainsKey key) db).1 = false := by
                  simp [Call.step, seen]
                rw [answer]
                exact ⟨refused expiresAt, rfl, rfl, .refuse expiresAt seen⟩
            | some value =>
                have answer : (Call.step env (.dataContainsKey key) db).1 = true := by
                  simp [Call.step, seen]
                rw [answer]
                exact ⟨found expiresAt, rfl, rfl, .find expiresAt (by simp [DB.entry, seen])⟩
          · exact absurd rfl (plain expiresAt option)
  | cleared value expiresAt =>
      cases here
      cases expiresAt with
      | none =>
          refine ⟨done (.set value none), rfl, rfl, ?_⟩
          rw [entry_dataInsert]
          exact .store ..
      | some deadline =>
          refine ⟨stored value deadline, rfl, rfl, ?_⟩
          rw [entry_dataInsert]
          exact .storeDated ..
  | stored value expiresAt =>
      cases here
      refine ⟨done (.set value (some expiresAt)), rfl, rfl, ?_⟩
      rw [entry_expirationsInsert]
      exact .date ..
  | removed =>
      cases here
      refine ⟨done .delete, rfl, rfl, ?_⟩
      rw [entry_expirationsRemove]
      exact .forget ..
  | found expiresAt =>
      cases here
      refine ⟨done (.expire expiresAt none), rfl, rfl, ?_⟩
      rw [entry_expirationsInsert]
      exact .postpone ..
  | refused expiresAt => cases here
  | done update => cases here

theorem ended {key : String} {progress : Progress} (finished : (progress.thread key).Finished) :
    (∃ expiresAt, progress = refused expiresAt) ∨ ∃ update, progress = done update := by
  cases progress with
  | waiting update => cases update <;> exact finished.elim
  | refused expiresAt => exact Or.inl ⟨expiresAt, rfl⟩
  | done update => exact Or.inr ⟨update, rfl⟩
  | _ => exact finished.elim

/-- A finished writer of the value has written what it would leave alone. -/
theorem wrote_of_writes {update : Update} (writes : update.writes = true) (entry : Entry) :
    (done update).wroteValue = some (update.apply entry).value ∧
      (done update).wroteDeadline = some (update.apply entry).deadline := by
  cases update with
  | expire => cases writes
  | _ => exact ⟨rfl, rfl⟩

theorem writes_of_wroteValue {update : Update} {value : Option RedisObject}
    (wrote : (done update).wroteValue = some value) : update.writes = true := by
  cases update with
  | expire => cases wrote
  | _ => rfl

/-! ## What every call preserves -/

/-- An EXPIRE that has found a value under the key. -/
def Found : Progress → Prop
  | found _ | done (.expire _ _) => True
  | _ => False

/-- An EXPIRE that has found none. -/
def Refused : Progress → Prop
  | refused _ => True
  | _ => False

theorem Found.expires {progress : Progress} (isFound : progress.Found) :
    ∃ expiresAt option, progress.update = .expire expiresAt option := by
  rcases progress with _ | _ | _ | _ | expiresAt | _ | ⟨_ | _ | ⟨expiresAt, option⟩⟩
  all_goals first | exact isFound.elim | exact ⟨_, _, rfl⟩

theorem Refused.expires {progress : Progress} (isRefused : progress.Refused) :
    ∃ expiresAt option, progress.update = .expire expiresAt option := by
  cases progress with
  | refused expiresAt => exact ⟨expiresAt, none, rfl⟩
  | _ => exact isRefused.elim

theorem update_of_wroteValue_none {progress : Progress} (wrote : progress.wroteValue = some none) :
    progress.update = .delete := by
  rcases progress with _ | _ | _ | _ | _ | _ | ⟨_ | _ | _⟩
  all_goals first | rfl | cases wrote

namespace Moves

variable {progress progress' : Progress} {entry entry' : Entry}

theorem value (moves : Moves progress entry progress' entry') :
    progress'.wroteValue = progress.wroteValue ∧ entry'.value = entry.value ∨
      progress'.wroteValue = some entry'.value := by
  cases moves
  all_goals first | exact Or.inl ⟨rfl, rfl⟩ | exact Or.inr rfl

theorem deadline (moves : Moves progress entry progress' entry') :
    progress'.wroteDeadline = progress.wroteDeadline ∧ entry'.deadline = entry.deadline ∨
      progress'.wroteDeadline = some entry'.deadline := by
  cases moves
  all_goals first | exact Or.inl ⟨rfl, rfl⟩ | exact Or.inr rfl

/-- Only DELETE removes a value. -/
theorem missing (moves : Moves progress entry progress' entry') (gone : entry'.value = none) :
    entry.value = none ∨ progress'.update = .delete := by
  cases moves
  all_goals first | exact Or.inl gone | exact Or.inr rfl | cases gone

theorem found (moves : Moves progress entry progress' entry') (isFound : progress'.Found) :
    progress.Found ∨ entry.value ≠ none := by
  cases moves with
  | find expiresAt present => exact Or.inr present
  | postpone => exact Or.inl trivial
  | _ => exact isFound.elim

theorem refused (moves : Moves progress entry progress' entry') (isRefused : progress'.Refused) :
    entry.value = none := by
  cases moves with
  | refuse expiresAt missing => exact missing
  | _ => exact isRefused.elim

end Moves

/-- The entry of the key and the stages of its updates. -/
structure Consistent (initial : Entry) (updates : List Update) (stages : List Progress)
    (entry : Entry) : Prop where
  updates : stages.map update = updates
  value : LastWritten initial.value entry.value (stages.map wroteValue)
  deadline : LastWritten initial.deadline entry.deadline (stages.map wroteDeadline)
  found : ∀ progress ∈ stages, progress.Found → entry.value ≠ none
  refused : ∀ progress ∈ stages, progress.Refused → initial.value = none

namespace Consistent

variable {initial entry entry' : Entry} {updates : List Update}
  {stages before after : List Progress}
  {progress progress' : Progress}

theorem start (entry : Entry) (updates : List Update) :
    Consistent entry updates (updates.map waiting) entry := by
  have waits : ∀ progress ∈ updates.map waiting, ∃ update, progress = waiting update := by
    intro progress member
    rcases List.mem_map.mp member with ⟨update, -, rfl⟩
    exact ⟨update, rfl⟩
  constructor
  · rw [List.map_map]
    exact List.map_id updates
  · exact Or.inl ⟨rfl, by simp [wroteValue]⟩
  · exact Or.inl ⟨rfl, by simp [wroteDeadline]⟩
  · intro progress member isFound
    rcases waits progress member with ⟨update, rfl⟩
    exact isFound.elim
  · intro progress member isRefused
    rcases waits progress member with ⟨update, rfl⟩
    exact isRefused.elim

theorem update_mem (consistent : Consistent initial updates stages entry)
    (member : progress ∈ stages) : progress.update ∈ updates := by
  rw [← consistent.updates]
  exact List.mem_map_of_mem member

theorem move (unchecked : Update.Unchecked updates)
    (consistent : Consistent initial updates (before ++ progress :: after) entry)
    (moves : Moves progress entry progress' entry') (same : progress'.update = progress.update) :
    Consistent initial updates (before ++ progress' :: after) entry' := by
  have here : progress ∈ before ++ progress :: after :=
    List.mem_append_right before List.mem_cons_self
  have moving : progress'.update ∈ updates := same ▸ consistent.update_mem here
  have present : ∀ other : Progress, other.update ∈ updates → other.Found →
      entry.value ≠ none → entry'.value ≠ none := by
    intro other inside isFound present gone
    rcases moves.missing gone with missing | deletes
    · exact present missing
    · rcases isFound.expires with ⟨expiresAt, option, expires⟩
      exact unchecked.separate (deletes ▸ moving) expiresAt option (expires ▸ inside)
  constructor
  · rw [← consistent.updates]
    simp [same]
  · have value := consistent.value
    rw [List.map_append, List.map_cons] at value ⊢
    exact value.move moves.value
  · have deadline := consistent.deadline
    rw [List.map_append, List.map_cons] at deadline ⊢
    exact deadline.move moves.deadline
  · apply Pool.forall_mem_replace
    · intro other member isFound
      exact present other (consistent.update_mem member) isFound
        (consistent.found other member isFound)
    · intro isFound
      apply present progress' moving isFound
      rcases moves.found isFound with earlier | present
      · exact consistent.found progress here earlier
      · exact present
  · apply Pool.forall_mem_replace consistent.refused
    intro isRefused
    have missing := moves.refused isRefused
    rcases consistent.value with ⟨unwritten, -⟩ | written
    · rw [← unwritten, missing]
    · -- Somebody removed the value, but no DELETE runs beside an EXPIRE.
      rw [missing] at written
      rcases List.mem_map.mp written with ⟨other, member, wrote⟩
      have deletes := update_of_wroteValue_none wrote
      rcases isRefused.expires with ⟨expiresAt, option, expires⟩
      exact absurd (expires ▸ moving) (unchecked.separate
        (deletes ▸ consistent.update_mem member) expiresAt option)

section Order

variable (unchecked : Update.Unchecked updates)
  (consistent : Consistent initial updates stages entry)
  (ended : ∀ progress ∈ stages,
    (∃ expiresAt, progress = .refused expiresAt) ∨ ∃ update, progress = done update)

include consistent ended

theorem exists_writer_of_value
    (written : some entry.value ∈ stages.map wroteValue) :
    ∃ writer ∈ updates, writer.writes = true ∧
      ∀ entry', (writer.apply entry').value = entry.value := by
  rcases List.mem_map.mp written with ⟨progress, member, wrote⟩
  rcases ended progress member with ⟨expiresAt, rfl⟩ | ⟨writer, rfl⟩
  · cases wrote
  · have writes := writes_of_wroteValue wrote
    refine ⟨writer, consistent.update_mem member, writes, fun entry' => ?_⟩
    have recorded := (wrote_of_writes writes entry').1
    exact Option.some.inj (recorded.symm.trans wrote)

include unchecked

/-- With a writer of the value among the updates, one of them comes last, or next to
last before an EXPIRE. -/
theorem yields_of_writer {update : Update} (member : update ∈ updates)
    (writes : update.writes = true) :
    Update.Yields updates initial entry := by
  have finished : done update ∈ stages := by
    rw [← consistent.updates] at member
    rcases List.mem_map.mp member with ⟨progress, inside, rfl⟩
    rcases ended progress inside with ⟨expiresAt, rfl⟩ | ⟨update, rfl⟩
    · cases writes
    · exact inside
  have recorded := wrote_of_writes writes initial
  rcases consistent.exists_writer_of_value ended (consistent.value.mem_of_ne_none
    (List.mem_map_of_mem finished) (by rw [recorded.1]; nofun)) with
    ⟨writer, inside, isWriter, value⟩
  have written := consistent.deadline.mem_of_ne_none
    (List.mem_map_of_mem finished) (by rw [recorded.2]; nofun)
  rcases List.mem_map.mp written with ⟨progress, member', wrote⟩
  rcases ended progress member' with ⟨expiresAt, rfl⟩ | ⟨last, rfl⟩
  · cases wrote
  · by_cases isWriter' : last.writes = true
    · rcases Update.exists_last inside with ⟨rest, perm⟩
      refine ⟨rest ++ [writer], perm, ?_⟩
      rw [List.foldl_append, List.foldl_cons, List.foldl_nil]
      have deadline : ∀ entry', (writer.apply entry').deadline = entry.deadline := by
        intro entry'
        rw [unchecked.deadline_eq inside (consistent.update_mem member') isWriter isWriter'
          entry' initial]
        exact Option.some.inj ((wrote_of_writes isWriter' initial).2.symm.trans wrote)
      exact Entry.ext (value _) (deadline _)
    · cases last with
      | expire expiresAt option =>
          have different : writer ≠ .expire expiresAt option := by
            rintro rfl
            exact isWriter' isWriter
          rcases Update.exists_last_two different inside (consistent.update_mem member') with
            ⟨rest, perm⟩
          refine ⟨rest ++ [writer, .expire expiresAt option], perm, ?_⟩
          rw [List.foldl_append, List.foldl_cons, List.foldl_cons, List.foldl_nil]
          exact unchecked.apply_expire (consistent.update_mem member') (value _)
            (consistent.found _ member' trivial) (Option.some.inj wrote)
      | _ => exact absurd rfl isWriter'

/-- With EXPIREs only, one that wrote the deadline comes last, or the key is unbound. -/
theorem yields_of_silent (silent : ∀ update ∈ updates, update.writes = false) :
    Update.Yields updates initial entry := by
  have kept : entry.value = initial.value := by
    rcases consistent.value with ⟨unwritten, -⟩ | written
    · exact unwritten
    · rcases consistent.exists_writer_of_value ended written with ⟨writer, inside, writes, -⟩
      cases (silent writer inside).symm.trans writes
  rcases consistent.deadline with ⟨unwritten, unrecorded⟩ | written
  · refine ⟨updates, List.Perm.refl updates, ?_⟩
    have same : initial = entry := Entry.ext kept.symm unwritten.symm
    rw [← same]
    by_cases missing : initial.value = none
    · exact Update.foldl_of_missing silent missing
    · -- An EXPIRE that found a value has written its deadline.
      have idle : stages = [] := by
        apply List.eq_nil_iff_forall_not_mem.mpr
        intro progress member
        rcases ended progress member with ⟨expiresAt, rfl⟩ | ⟨update, rfl⟩
        · exact missing (consistent.refused _ member trivial)
        · cases update with
          | expire => cases unrecorded _ (List.mem_map_of_mem member)
          | _ => cases silent _ (consistent.update_mem member)
      rw [← consistent.updates, idle]
      rfl
  · rcases List.mem_map.mp written with ⟨progress, member, wrote⟩
    rcases ended progress member with ⟨expiresAt, rfl⟩ | ⟨last, rfl⟩
    · cases wrote
    · have inside := consistent.update_mem member
      cases last with
      | expire expiresAt option =>
          rcases Update.exists_last inside with ⟨rest, perm⟩
          refine ⟨rest ++ [.expire expiresAt option], perm, ?_⟩
          rw [List.foldl_append, List.foldl_cons, List.foldl_nil]
          have others : ∀ update ∈ rest, update.writes = false :=
            fun update early => silent update (perm.subset (List.mem_append_left _ early))
          exact unchecked.apply_expire inside ((Update.foldl_value others initial).trans kept.symm)
            (consistent.found _ member trivial) (Option.some.inj wrote)
      | _ => cases silent _ inside

end Order

/-- The entry that finished updates leave is the one of a sequential order. -/
theorem yields (unchecked : Update.Unchecked updates)
    (consistent : Consistent initial updates stages entry)
    (ended : ∀ progress ∈ stages,
      (∃ expiresAt, progress = .refused expiresAt) ∨ ∃ update, progress = done update) :
    Update.Yields updates initial entry := by
  by_cases writer : ∃ update ∈ updates, update.writes = true
  · rcases writer with ⟨update, member, writes⟩
    exact consistent.yields_of_writer unchecked ended member writes
  · apply consistent.yields_of_silent unchecked ended
    intro update inside
    exact Bool.eq_false_iff.mpr fun writes => writer ⟨update, inside, writes⟩

end Consistent

end Progress

namespace Update

/-- The updates as the threads of a pool. -/
def race (db : DB) (key : String) (updates : List Update) :
    Pool DB Call Call.Response (Outcome String Unit) :=
  ⟨db, updates.map (prog key)⟩

variable {key : String} {updates : List Update} {initial : Entry}

/-- The threads of a pool are at stages that fit the entry of the key. -/
def Underway (key : String) (initial : Entry) (updates : List Update)
    (pool : Pool DB Call Call.Response (Outcome String Unit)) : Prop :=
  ∃ stages : List Progress, pool.threads = stages.map (Progress.thread key) ∧
    Progress.Consistent initial updates stages (pool.shared.entry key)

theorem Underway.turn (unchecked : Unchecked updates)
    (pool : Pool DB Call Call.Response (Outcome String Unit)) (turn : ℕ × Env)
    (underway : Underway key initial updates pool) :
    Underway key initial updates (pool.turn Call.step turn) := by
  rcases underway with ⟨stages, threads, consistent⟩
  rcases Pool.turn_stages Call.step threads turn with
    ⟨same, -⟩ | ⟨before, progress, after, op, next, rfl, here, -, -, made⟩
  · rw [same]
    exact ⟨stages, threads, consistent⟩
  · have plain : ∀ expiresAt option, progress.update ≠ .expire expiresAt (some option) := by
      intro expiresAt option expires
      have inside := consistent.update_mem (List.mem_append_right before List.mem_cons_self)
      exact unchecked.plain expiresAt option (expires ▸ inside)
    rcases Progress.thread_step here plain turn.2 pool.shared with ⟨progress', left, same, moves⟩
    refine ⟨before ++ progress' :: after, ?_, ?_⟩
    · rw [made, left, List.map_append, List.map_cons]
    · rw [made]
      exact consistent.move unchecked moves same

/-- Unchecked updates of one key, interleaved in any way, leave the value and the deadline
that some sequential order of them leaves. -/
theorem exists_sequential_of_unchecked (db : DB) (key : String) {updates : List Update}
    (unchecked : Unchecked updates) (schedule : List (ℕ × Env))
    (finished : ((race db key updates).run Call.step schedule).Finished) (now : Instant) :
    ∃ order : List Update, order.Perm updates ∧
      ((race db key updates).run Call.step schedule).shared.entry key =
        (sequential now key order db).entry key := by
  have start : Underway key (db.entry key) updates (race db key updates) := by
    refine ⟨updates.map .waiting, ?_, Progress.Consistent.start _ updates⟩
    rw [List.map_map]
    rfl
  rcases Pool.run_preserves _ (Underway.turn unchecked) start schedule with
    ⟨stages, threads, consistent⟩
  have ended : ∀ progress ∈ stages,
      (∃ expiresAt, progress = .refused expiresAt) ∨ ∃ update, progress = .done update := by
    intro progress member
    have inside : progress.thread key ∈ _ := List.mem_map_of_mem member
    rw [← threads] at inside
    exact Progress.ended (finished _ inside)
  exact (consistent.yields unchecked ended).exists_sequential_entry now

end Update

end Ember.Database
