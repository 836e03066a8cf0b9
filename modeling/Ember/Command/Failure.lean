import Ember.Command.Replay
import Ember.Database.Keys

/-!
# Failed commands

A plain command that is refused leaves the maps as they were.  EXEC runs its queue
against the live maps, so that a refused command in it keeps the effects of those
before: the maps after a failed EXEC are those that the commands left which had
succeeded until then.
-/

namespace Ember

open Ember.Base Ember.Database Ember.Resp

/-- The commands that may change what readers see. -/
def Command.Writes : Command → Prop
  | set _ _ _ | delete _ | lpush _ _ | rpush _ _ | expire _ _ _ => True
  | _ => False

namespace Dispatcher

variable {target : Target} {clock : ℕ → Instant}

/-! ## Refused commands -/

/-- A reader that is refused has seen a value, and removes nothing. -/
theorem settle_of_refused {now : Instant} {db : DB} {key : String} {missing : RespType}
    {reply : Option RedisObject → Outcome String RespType} (answers : reply none = .ok missing)
    (refused : ∀ answer, reply (db.visible now key) ≠ .ok answer) : db.settle now key = db := by
  cases found : db.visible now key with
  | none =>
      rw [found] at refused
      exact absurd answers (refused missing)
  | some value => exact if_neg (DB.visible_eq_some_iff.mp found).1

theorem exec_push_eq_self {now : Instant} {db : DB} {key : String} {fresh : List RedisObject}
    {update : List RedisObject → List RedisObject}
    (refused : (DB.exec now (DB.push key fresh update) db).1 ≠ .ok ()) :
    (DB.exec now (DB.push key fresh update) db).2 = db := by
  rw [DB.exec_push] at refused ⊢
  rcases found : db.data.lookup key with _ | (text | items)
  · rw [found] at refused
    exact absurd rfl refused
  · rfl
  · rw [found] at refused
    exact absurd rfl refused

theorem exec_expire_eq_self {now : Instant} {db : DB} {key : String} {expiresAt : Instant}
    {option : Option String}
    (refused : (DB.exec now (DB.expire key expiresAt option) db).1 ≠ .ok ()) :
    (DB.exec now (DB.expire key expiresAt option) db).2 = db := by
  rw [DB.exec_expire] at refused ⊢
  split
  next present =>
    rw [if_pos present] at refused
    rcases found : DB.replacesDeadline expiresAt option (db.expirations.lookup key) with _ | (_ | _)
    · rfl
    · rfl
    · rw [found] at refused
      exact absurd rfl refused
  next => rfl

theorem ne_ok_of_refused {result : Outcome String Unit}
    (refused : ∀ reply, replyWith simpleOk result ≠ .ok reply) : result ≠ .ok () := by
  intro done
  exact refused _ (congrArg (replyWith simpleOk) done)

/-- A plain command that does not succeed leaves the maps alone. -/
theorem effect_eq_self {c : Command} (plain : ¬c.Controls) {now : Instant} {db : DB}
    (refused : ∀ reply, (effect target now db c).1 ≠ .ok reply) :
    (effect target now db c).2 = db := by
  cases c with
  | multi | discard | exec => exact absurd trivial plain
  | ping | echo | save | delete => exact absurd rfl (refused _)
  | set key value expiresAt =>
      rw [effect_set] at refused
      exact absurd rfl (refused _)
  | get key =>
      rw [effect_get] at refused ⊢
      exact @settle_of_refused _ _ _ _ (fun value => replyWith replyGet (DB.getReply value)) rfl
        refused
  | lrange key start stop =>
      rw [effect_lrange] at refused ⊢
      exact @settle_of_refused _ _ _ _
        (fun value => replyWith replyLrange (DB.lrangeReply target start stop value)) rfl refused
  | lpush key values =>
      rw [effect_lpush] at refused ⊢
      exact exec_push_eq_self (ne_ok_of_refused refused)
  | rpush key values =>
      rw [effect_rpush] at refused ⊢
      exact exec_push_eq_self (ne_ok_of_refused refused)
  | expire key expiresAt option =>
      rw [effect_expire] at refused ⊢
      exact exec_expire_eq_self (ne_ok_of_refused refused)

/-- A command that writes nothing removes at most expired keys. -/
theorem effect_reaped (target : Target) {c : Command} (plain : ¬c.Controls)
    (reads : ¬c.Writes) (now : Instant) (db : DB) :
    DB.Reaped now db (effect target now db c).2 := by
  cases c with
  | multi | discard | exec => exact absurd trivial plain
  | set | delete | lpush | rpush | expire => exact absurd trivial reads
  | ping | echo | save => exact DB.Reaped.refl now db
  | get key =>
      rw [effect_get]
      exact DB.Reaped.settle now db key
  | lrange key start stop =>
      rw [effect_lrange]
      exact DB.Reaped.settle now db key

end Dispatcher

/-! ## The entry of a key -/

namespace Database.Entry

/-- What a push makes of the entry of its key: a new list, or a longer one. -/
def push (fresh : List RedisObject) (update : List RedisObject → List RedisObject)
    (entry : Entry) : Entry :=
  match entry.value with
  | none => { entry with value := some (.list fresh) }
  | some (.list items) => { entry with value := some (.list (update items)) }
  | some (.string _) => entry

/-- The entry is as it was, or its deadline had passed and it is gone. -/
def Kept (now : Instant) (before after : Entry) : Prop :=
  after = before ∨ before.deadline.any (· < now) = true ∧ after = ⟨none, none⟩

end Database.Entry

/-- What a command makes of the entry of its key. -/
def Command.onEntry (now : Instant) (entry : Entry) : Command → Entry
  | set _ value expiresAt => ⟨some (.string value), expiresAt⟩
  | delete _ => ⟨none, none⟩
  | lpush _ values => entry.push (values.map .string).reverse (values.map .string ++ ·)
  | rpush _ values => entry.push (values.map .string) (· ++ values.map .string)
  | expire _ expiresAt option =>
      if entry.value.isSome ∧ DB.replacesDeadline expiresAt option entry.deadline = some true then
        { entry with deadline := some expiresAt }
      else
        entry
  | get _ | lrange _ _ _ => if entry.deadline.any (· < now) then ⟨none, none⟩ else entry
  | ping | echo _ | multi | discard | exec | save => entry

/-- What commands make of the entry of a key, each at a clock reading of its own. -/
def entryAfter (clock : ℕ → Instant) (key : String) : List Command → ℕ → Entry → Entry
  | [], _, entry => entry
  | c :: rest, tick, entry => entryAfter clock key rest (tick + 1)
      (if c.key = some key then c.onEntry (clock tick) entry else entry)

theorem reaped_iff_kept {now : Instant} {db db' : DB} :
    DB.Reaped now db db' ↔ ∀ key, (db.entry key).Kept now (db'.entry key) := by
  simp only [DB.Reaped, Entry.Kept, DB.entry, DB.expired, Entry.mk.injEq]

namespace Dispatcher

section Entries

variable (now : Instant) (db : DB) (key key' : String)

theorem entry_settle : (db.settle now key').entry key =
    if key' = key then
      if (db.entry key).deadline.any (· < now) then ⟨none, none⟩ else db.entry key
    else db.entry key := by
  unfold DB.settle DB.expired
  by_cases same : key' = key
  · subst same
    rw [if_pos rfl]
    change _ = if (db.expirations.lookup key').any (· < now) then _ else _
    split <;> simp [DB.entry]
  · rw [if_neg same]
    split <;> simp [DB.entry, Ne.symm same]

theorem entry_push (fresh : List RedisObject) (update : List RedisObject → List RedisObject) :
    (DB.exec now (DB.push key' fresh update) db).2.entry key =
      if key' = key then (db.entry key).push fresh update else db.entry key := by
  rw [DB.exec_push]
  by_cases same : key' = key
  · subst same
    rw [if_pos rfl]
    rcases found : db.data.lookup key' with _ | (text | items) <;>
      simp [DB.entry, found, DB.pushed, DB.extendList, DB.store, Entry.push]
  · rw [if_neg same]
    rcases db.data.lookup key' with _ | (text | items) <;>
      simp [DB.entry, DB.pushed, DB.extendList, DB.store, Ne.symm same]

theorem entry_expire (expiresAt : Instant) (option : Option String) :
    (DB.exec now (DB.expire key' expiresAt option) db).2.entry key =
      if key' = key then (Command.expire key' expiresAt option).onEntry now (db.entry key)
      else db.entry key := by
  rw [DB.exec_expire]
  by_cases same : key' = key
  · subst same
    rw [if_pos rfl, Command.onEntry]
    change _ = if (db.data.lookup key').isSome ∧
      DB.replacesDeadline expiresAt option (db.expirations.lookup key') = some true then _ else _
    by_cases present : (db.data.lookup key').isSome
    · rcases answer : DB.replacesDeadline expiresAt option (db.expirations.lookup key') with
        _ | (_ | _) <;> simp [present, DB.entry]
    · simp [present]
  · rw [if_neg same]
    split
    · split <;> simp [DB.entry, Ne.symm same]
    · rfl

/-- A plain command changes the entry of its own key, and no other. -/
theorem entry_effect (target : Target) {c : Command} (plain : ¬c.Controls) :
    (effect target now db c).2.entry key =
      if c.key = some key then c.onEntry now (db.entry key) else db.entry key := by
  cases c with
  | multi | discard | exec => exact absurd trivial plain
  | ping | echo | save => rfl
  | set key' value expiresAt =>
      rw [effect_set]
      by_cases same : key' = key
      · simp [same, DB.entry, Command.key, Command.onEntry]
      · simp [same, Ne.symm same, DB.entry, Command.key]
  | delete key' =>
      change (db.evict key').entry key = _
      by_cases same : key' = key
      · simp [same, DB.entry, Command.key, Command.onEntry]
      · simp [same, Ne.symm same, DB.entry, Command.key]
  | get key' =>
      rw [effect_get, entry_settle]
      simp only [Command.key, Option.some.injEq, Command.onEntry]
  | lrange key' start stop =>
      rw [effect_lrange, entry_settle]
      simp only [Command.key, Option.some.injEq, Command.onEntry]
  | lpush key' values =>
      rw [effect_lpush, DB.lpush, entry_push]
      simp only [Command.key, Option.some.injEq, Command.onEntry]
  | rpush key' values =>
      rw [effect_rpush, DB.rpush, entry_push]
      simp only [Command.key, Option.some.injEq, Command.onEntry]
  | expire key' expiresAt option =>
      rw [effect_expire, entry_expire]
      simp only [Command.key, Option.some.injEq]

end Entries

variable {target : Target} {clock : ℕ → Instant}

theorem entry_advanceAll {commands : List Command} (plain : ∀ c ∈ commands, ¬c.Controls)
    (session : Session) (key : String) :
    (advanceAll target clock session commands).db.entry key =
      entryAfter clock key commands session.tick (session.db.entry key) := by
  induction commands generalizing session with
  | nil => rfl
  | cons c rest ih =>
      rcases List.forall_mem_cons.mp plain with ⟨plainHead, plainRest⟩
      rw [entryAfter, ← entry_effect _ _ _ target plainHead]
      exact ih plainRest (advance target clock session c)

/-- Commands that write nothing remove keys at most that had expired by the latest of the
clock readings they use. -/
theorem advanceAll_reaped {now : Instant} {commands : List Command} {session : Session}
    (readings : ∀ i < commands.length, clock (session.tick + i) ≤ now)
    (reads : ∀ c ∈ commands, ¬c.Controls ∧ ¬c.Writes) :
    DB.Reaped now session.db (advanceAll target clock session commands).db := by
  induction commands generalizing session with
  | nil => exact DB.Reaped.refl now session.db
  | cons c rest ih =>
      rcases List.forall_mem_cons.mp reads with ⟨⟨plain, reads⟩, others⟩
      have first := (effect_reaped target plain reads (clock session.tick) session.db).mono
        (readings 0 (Nat.succ_pos _))
      have later : ∀ i < rest.length, clock ((advance target clock session c).tick + i) ≤ now := by
        intro i inside
        have reading := readings (i + 1) (Nat.succ_lt_succ inside)
        rwa [Nat.add_comm i 1, ← Nat.add_assoc] at reading
      exact first.trans (ih later others)

/-! ## Failed dispatches -/

/-- A command other than EXEC that fails leaves the maps as they were. -/
theorem db_of_failed {depth : ℕ} {session session' : Session} {cmd : Command} {e : String}
    (other : cmd ≠ .exec)
    (failed : executeCommand target clock depth session cmd = some (.error e, session')) :
    session'.db = session.db := by
  cases depth with
  | zero => cases failed
  | succ depth =>
      by_cases controls : cmd.Controls
      · cases cmd with
        | multi | discard => cases failed
        | exec => exact absurd rfl other
        | _ => exact controls.elim
      · rw [executeCommand_plain target clock controls, Option.some.injEq, Prod.mk.injEq] at failed
        rcases failed with ⟨refused, rfl⟩
        exact effect_eq_self controls (by rw [refused]; rintro reply ⟨⟩)

/-- A failed EXEC has executed the commands of its queue up to the first one that was
refused. -/
theorem exec_failed {depth : ℕ} {session session' : Session} {e : String}
    (wf : session.client.WellFormed)
    (failed : executeCommand target clock depth session .exec = some (.error e, session')) :
    ∃ front refused rest, session.client.queuedCommands = front ++ refused :: rest ∧
      QueueAccepted target clock session.tick session.db front ∧
      let middle := advanceAll target clock session front
      ¬Accepted target (clock middle.tick) middle.db refused ∧ session'.db = middle.db := by
  have ran := executeCommand_mono (Nat.le_add_right depth 2) failed
  by_cases accepted : QueueAccepted target clock session.tick session.db
    session.client.queuedCommands
  · rcases executeQueue_of_accepted wf.plain depth [] session accepted with ⟨⟨replies, done⟩, -⟩
    cases ran.symm.trans done
  · obtain ⟨front, c, rest, split, before, refusal, stops⟩ :=
      executeQueue_of_refused wf.plain depth [] session accepted
    have plain : ¬c.Controls := wf.plain c (by rw [split]; simp)
    refine ⟨front, c, rest, split, before, refusal, ?_⟩
    rw [(Prod.mk.inj (Option.some.inj (ran.symm.trans stops))).2]
    apply effect_eq_self plain
    intro reply replied
    exact refusal ((effect_eq_ok_iff target plain _ _).mp ⟨reply, replied⟩)

/-- A failed command other than EXEC leaves the maps as they were.  A failed EXEC leaves
them as the queued commands did that were accepted before one was refused: nothing is
changed, up to the removal of expired keys, if and only if these commands leave the entry
of every key as it was, or remove one that had expired.  They do so if none of them
writes. -/
theorem failed_dispatch_leaves (target : Target) (clock : ℕ → Instant) (depth : ℕ)
    (session : Session) (cmd : Command) {e : String} {session' : Session}
    (failed : dispatch target clock depth session cmd = some (.error e, session')) :
    (cmd ≠ .exec → session'.db = session.db) ∧
    (cmd = .exec → session.client.WellFormed → ∃ front refused rest,
      session.client.queuedCommands = front ++ refused :: rest ∧
      QueueAccepted target clock session.tick session.db front ∧
      ¬Accepted target (clock (advanceAll target clock session front).tick)
        (advanceAll target clock session front).db refused ∧
      (∀ now, DB.Reaped now session.db session'.db ↔ ∀ key, (session.db.entry key).Kept now
        (entryAfter clock key front session.tick (session.db.entry key))) ∧
      ∀ now, (∀ i < front.length, clock (session.tick + i) ≤ now) → (∀ c ∈ front, ¬c.Writes) →
        DB.Reaped now session.db session'.db) := by
  have ran : executeCommand target clock depth session cmd = some (.error e, session') ∨
      cmd = .multi ∧ session' = session := by
    unfold dispatch at failed
    split at failed
    · split at failed
      · cases failed
        exact Or.inr ⟨rfl, rfl⟩
      · exact Or.inl failed
      · exact Or.inl failed
      · cases failed
    · exact Or.inl failed
  rcases ran with ran | ⟨rfl, rfl⟩
  · refine ⟨fun other => db_of_failed other ran, ?_⟩
    rintro rfl wf
    obtain ⟨front, refused, rest, split, before, refusal, left⟩ := exec_failed wf ran
    have plain : ∀ c ∈ front, ¬c.Controls := by
      intro c member
      exact wf.plain c (by rw [split]; exact List.mem_append_left _ member)
    refine ⟨front, refused, rest, split, before, refusal, ?_, ?_⟩
    · intro now
      rw [left, reaped_iff_kept]
      simp only [entry_advanceAll plain]
    · intro now readings reads
      rw [left]
      exact advanceAll_reaped readings fun c member => ⟨plain c member, reads c member⟩
  · refine ⟨fun _ => rfl, ?_⟩
    rintro ⟨⟩

/-- An EXEC that sets a key and deletes it again before it is refused. -/
theorem failed_dispatch_leaves_undone :
    let session : Session := ⟨⟨true, [.set "k" "v" none, .delete "k", .get "l"]⟩,
      ⟨FiniteMap.ofList [("l", .list [])], ∅⟩, 0⟩
    ∃ e session', dispatch ⟨true, 24⟩ (fun _ => 0) 2 session .exec = some (.error e, session') ∧
      DB.Reaped 0 session.db session'.db := by
  intro session
  obtain ⟨e, session', failed⟩ : ∃ e session',
      dispatch ⟨true, 24⟩ (fun _ => 0) 2 session .exec = some (.error e, session') := ⟨_, _, rfl⟩
  have wf : session.client.WellFormed := ⟨by rintro ⟨⟩, by decide⟩
  obtain ⟨front, refused, rest, split, before, refusal, exact, -⟩ :=
    (failed_dispatch_leaves _ _ _ _ _ failed).2 rfl wf
  refine ⟨e, session', failed, (exact 0).mpr fun key => Or.inl ?_⟩
  -- Only the GET of a list is refused.
  rcases front with _ | ⟨c, _ | ⟨c', _ | ⟨c'', more⟩⟩⟩
  · cases split
    exact absurd trivial refusal
  · cases split
    exact absurd trivial refusal
  · cases split
    by_cases same : key = "k"
    · subst same
      rfl
    · simp [entryAfter, Command.key, Ne.symm same]
  · simp [session] at split

/-- An EXEC that is refused after a SET: the client gets an error, and the key is
set. -/
theorem failed_exec_keeps_set :
    let session : Session :=
      ⟨⟨true, [.set "k" "v" none, .get "l"]⟩, ⟨FiniteMap.ofList [("l", .list [])], ∅⟩, 0⟩
    ∃ e session', dispatch ⟨true, 24⟩ (fun _ => 0) 2 session .exec = some (.error e, session') ∧
      session'.db.data.lookup "k" = some (.string "v") ∧
        ∀ now, ¬DB.Reaped now session.db session'.db := by
  intro session
  obtain ⟨e, session', failed, stored⟩ : ∃ e session',
      dispatch ⟨true, 24⟩ (fun _ => 0) 2 session .exec = some (.error e, session') ∧
        session'.db.data.lookup "k" = some (.string "v") := ⟨_, _, rfl, rfl⟩
  have missing : session.db.data.lookup "k" = none := rfl
  refine ⟨e, session', failed, stored, fun now reaped => ?_⟩
  cases missing.symm.trans (reaped.lookup_of_some stored)

end Dispatcher

end Ember
