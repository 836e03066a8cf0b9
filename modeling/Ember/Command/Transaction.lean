import Ember.Command.Dispatcher

/-!
# Transactions

The transaction state of a client over whole runs: outside a transaction its
queue is empty, and the queue never holds a command that controls the
transaction.  EXEC therefore runs a queue of plain commands, and closes the
transaction exactly when each of them is accepted by the maps it finds.
-/

namespace Ember

open Ember.Base Ember.Database Ember.Resp

/-- The commands that open, close or drop a transaction. -/
def Command.Controls : Command → Prop
  | multi | discard | exec => True
  | _ => False

instance (c : Command) : Decidable c.Controls :=
  decidable_of_iff (c = .multi ∨ c = .discard ∨ c = .exec) (by cases c <;> simp [Command.Controls])

/-- The key a command works on. -/
def Command.key : Command → Option String
  | set key _ _ | get key | delete key | lpush key _ | rpush key _ | lrange key _ _
  | expire key _ _ => some key
  | ping | echo _ | multi | discard | exec | save => none

/-- The invariant of a client's transaction state. -/
structure Client.WellFormed (client : Client) : Prop where
  idle : client.inTransaction = false → client.queuedCommands = []
  plain : ∀ c ∈ client.queuedCommands, ¬c.Controls

theorem Client.wellFormed_of_queue_nil (inTransaction : Bool) :
    Client.WellFormed ⟨inTransaction, []⟩ :=
  ⟨fun _ => rfl, nofun⟩

namespace Dispatcher

variable {target : Target} {clock : ℕ → Instant}

/-- The reply and the maps after a plain command that runs alone. -/
def effect (target : Target) (now : Instant) (db : DB) (c : Command) :
    Outcome String RespType × DB :=
  match operation target c with
  | some prog => DB.exec now prog db
  | none => (.panic, db)

/-- The session after a plain command. -/
def advance (target : Target) (clock : ℕ → Instant) (session : Session) (c : Command) : Session :=
  { session with db := (effect target (clock session.tick) session.db c).2,
                 tick := session.tick + 1 }

theorem executeCommand_plain (target : Target) (clock : ℕ → Instant) {c : Command}
    (plain : ¬c.Controls) (depth : ℕ) (session : Session) :
    executeCommand target clock (depth + 1) session c =
      some ((effect target (clock session.tick) session.db c).1,
        advance target clock session c) := by
  cases c with
  | multi | discard | exec => exact absurd trivial plain
  | _ => rfl

/-! ## Which commands are accepted -/

/-- The maps accept a command: it will not be refused, and not panic. -/
def Accepted (target : Target) (now : Instant) (db : DB) : Command → Prop
  | .get key => ∀ items, db.visible now key ≠ some (.list items)
  | .lpush key _ | .rpush key _ => ∀ text, db.data.lookup key ≠ some (.string text)
  | .lrange key start stop =>
      ∃ result, DB.lrangeReply target start stop (db.visible now key) = .ok result
  | .expire key _ option => (db.data.lookup key).isSome ∧
      option ∈ [none, some "NX", some "XX", some "GT", some "LT"]
  | _ => True

/-- The maps accept the commands of a queue one after the other. -/
def QueueAccepted (target : Target) (clock : ℕ → Instant) : ℕ → DB → List Command → Prop
  | _, _, [] => True
  | tick, db, c :: rest => Accepted target (clock tick) db c ∧
      QueueAccepted target clock (tick + 1) (effect target (clock tick) db c).2 rest

section Effect

variable (target) (now : Instant) (db : DB)

theorem effect_set (key value : String) (expiresAt : Option Instant) :
    effect target now db (.set key value expiresAt) =
      (.ok (.simpleString "Ok"), db.bindKey key (.string value) expiresAt) := by
  cases expiresAt <;> rfl

theorem effect_get (key : String) : effect target now db (.get key) =
    (replyWith replyGet (DB.getReply (db.visible now key)), db.settle now key) := by
  simp only [effect, operation, DB.exec_bind, DB.exec_get]
  rfl

theorem effect_lpush (key : String) (values : List String) :
    effect target now db (.lpush key values) =
      (replyWith simpleOk (DB.exec now (DB.lpush key (values.map .string)) db).1,
        (DB.exec now (DB.lpush key (values.map .string)) db).2) := by
  simp only [effect, operation, DB.exec_bind]
  rfl

theorem effect_rpush (key : String) (values : List String) :
    effect target now db (.rpush key values) =
      (replyWith simpleOk (DB.exec now (DB.rpush key (values.map .string)) db).1,
        (DB.exec now (DB.rpush key (values.map .string)) db).2) := by
  simp only [effect, operation, DB.exec_bind]
  rfl

theorem effect_lrange (key : String) (start stop : Int32) :
    effect target now db (.lrange key start stop) =
      (replyWith replyLrange (DB.lrangeReply target start stop (db.visible now key)),
        db.settle now key) := by
  simp only [effect, operation, DB.exec_bind, DB.exec_lrange]
  rfl

theorem effect_expire (key : String) (expiresAt : Instant) (option : Option String) :
    effect target now db (.expire key expiresAt option) =
      (replyWith simpleOk (DB.exec now (DB.expire key expiresAt option) db).1,
        (DB.exec now (DB.expire key expiresAt option) db).2) := by
  simp only [effect, operation, DB.exec_bind]
  rfl

end Effect

/-! ## What a plain command does to the maps -/

/-- The ways in which a plain command can change the maps. -/
inductive Change (now : Instant) (db : DB) : Command → DB → Prop where
  | none {c : Command} : Change now db c db
  | settled {c : Command} (key : String) : Change now db c (db.settle now key)
  | bound (key text : String) (expiresAt : Option Instant) :
      Change now db (.set key text expiresAt) (db.bindKey key (.string text) expiresAt)
  | evicted (key : String) : Change now db (.delete key) (db.evict key)
  | pushed {c : Command} {key : String} {values : List String} {items result : List RedisObject}
      (push : c = .lpush key values ∨ c = .rpush key values)
      (old : items = [] ∧ db.data.lookup key = Option.none ∨
        db.data.lookup key = some (.list items))
      (perm : result.Perm (values.map .string ++ items)) :
      Change now db c { db with data := db.data.insert key (.list result) }
  | scheduled {key : String} (expiresAt : Instant) (option : Option String)
      (present : (db.data.lookup key).isSome) :
      Change now db (.expire key expiresAt option)
        { db with expirations := db.expirations.insert key expiresAt }

theorem Change.of_push {now : Instant} {db : DB} {c : Command} {key : String}
    {values : List String} {fresh : List RedisObject} {update : List RedisObject → List RedisObject}
    (push : c = .lpush key values ∨ c = .rpush key values)
    (first : fresh.Perm (values.map .string))
    (more : ∀ items, (update items).Perm (values.map .string ++ items)) :
    Change now db c (DB.exec now (DB.push key fresh update) db).2 := by
  rw [DB.exec_push]
  rcases old : db.data.lookup key with _ | (text | items)
  · exact .pushed push (Or.inl ⟨rfl, old⟩) (first.trans (by rw [List.append_nil]))
  · exact .none
  · exact .pushed push (Or.inr old) (more items)

theorem effect_change (target : Target) (now : Instant) (db : DB) {c : Command}
    (plain : ¬c.Controls) : Change now db c (effect target now db c).2 := by
  cases c with
  | multi | discard | exec => exact absurd trivial plain
  | ping | echo | save => exact .none
  | set key text expiresAt =>
      rw [effect_set]
      exact .bound key text expiresAt
  | get key =>
      rw [effect_get]
      exact .settled key
  | lrange key start stop =>
      rw [effect_lrange]
      exact .settled key
  | delete key => exact .evicted key
  | lpush key values =>
      rw [effect_lpush]
      exact .of_push (Or.inl rfl) (List.reverse_perm _) fun _ => List.Perm.refl _
  | rpush key values =>
      rw [effect_rpush]
      exact .of_push (Or.inr rfl) (List.Perm.refl _) fun _ => List.perm_append_comm
  | expire key expiresAt option =>
      rw [effect_expire, DB.exec_expire]
      split
      next present =>
        split
        · exact .scheduled expiresAt option present
        · exact .none
        · exact .none
      next => exact .none

theorem replyWith_simpleOk_eq_ok_iff {result : Outcome String Unit} :
    (∃ reply, replyWith simpleOk result = .ok reply) ↔ result = .ok () := by
  cases result <;> simp [replyWith, simpleOk]

theorem replacesDeadline_ne_none_iff {expiresAt : Instant} {option : Option String}
    {current : Option Instant} : DB.replacesDeadline expiresAt option current ≠ none ↔
      option ∈ [none, some "NX", some "XX", some "GT", some "LT"] := by
  cases option with
  | none => simp [DB.replacesDeadline]
  | some opt =>
      unfold DB.replacesDeadline
      dsimp only
      split_ifs <;> simp_all

theorem exec_push_eq_ok_iff {now : Instant} {db : DB} {key : String} {fresh : List RedisObject}
    {update : List RedisObject → List RedisObject} :
    (DB.exec now (DB.push key fresh update) db).1 = .ok () ↔
      ∀ text, db.data.lookup key ≠ some (.string text) := by
  rw [DB.exec_push]
  rcases db.data.lookup key with _ | (text | items) <;>
    simp [DB.pushed, DB.extendList, DB.store]

theorem exec_expire_eq_ok_iff {now : Instant} {db : DB} {key : String} {expiresAt : Instant}
    {option : Option String} : (DB.exec now (DB.expire key expiresAt option) db).1 = .ok () ↔
      (db.data.lookup key).isSome ∧
        option ∈ [none, some "NX", some "XX", some "GT", some "LT"] := by
  have valid := @replacesDeadline_ne_none_iff expiresAt option (db.expirations.lookup key)
  rw [DB.exec_expire, ← valid]
  split
  next present =>
    rcases DB.replacesDeadline expiresAt option (db.expirations.lookup key) with _ | (_ | _) <;>
      simp [present]
  next absent => simp [absent]

/-- A plain command succeeds exactly when the maps accept it. -/
theorem effect_eq_ok_iff (target : Target) {c : Command} (plain : ¬c.Controls) (now : Instant)
    (db : DB) :
    (∃ reply, (effect target now db c).1 = .ok reply) ↔ Accepted target now db c := by
  cases c with
  | multi | discard | exec => exact absurd trivial plain
  | ping | echo | save | delete => exact iff_of_true ⟨_, rfl⟩ trivial
  | set key value expiresAt =>
      rw [effect_set]
      exact iff_of_true ⟨_, rfl⟩ trivial
  | get key =>
      rw [effect_get]
      rcases found : db.visible now key with _ | (text | items) <;>
        simp [Accepted, found, DB.getReply, replyWith, replyGet, DB.nil]
  | lpush key values =>
      rw [effect_lpush, replyWith_simpleOk_eq_ok_iff]
      exact exec_push_eq_ok_iff
  | rpush key values =>
      rw [effect_rpush, replyWith_simpleOk_eq_ok_iff]
      exact exec_push_eq_ok_iff
  | lrange key start stop =>
      rw [effect_lrange]
      rcases found : DB.lrangeReply target start stop (db.visible now key) with
        (text | items) | _ | _ <;>
        simp [Accepted, found, replyWith, replyLrange]
  | expire key expiresAt option =>
      rw [effect_expire, replyWith_simpleOk_eq_ok_iff]
      exact exec_expire_eq_ok_iff

/-! ## EXEC -/

/-- The number of queued commands the loop of EXEC executes. -/
def attempts (execute : Session → Command → Option (Outcome String RespType × Session)) :
    List Command → Session → ℕ
  | [], _ => 0
  | c :: rest, session =>
      match execute session c with
      | some (.ok _, session) => attempts execute rest session + 1
      | _ => 1

/-- The session after the plain commands of a list. -/
def advanceAll (target : Target) (clock : ℕ → Instant) (session : Session)
    (commands : List Command) : Session :=
  commands.foldl (advance target clock) session

theorem client_advanceAll (session : Session) (commands : List Command) :
    (advanceAll target clock session commands).client = session.client := by
  induction commands generalizing session with
  | nil => rfl
  | cons c rest ih => exact ih (advance target clock session c)

/-- An accepted queue of plain commands is executed to its end, which closes the
transaction. -/
theorem executeQueue_of_accepted {queue : List Command} (plain : ∀ c ∈ queue, ¬c.Controls)
    (depth : ℕ) (replies : List RespType) (session : Session)
    (accepted : QueueAccepted target clock session.tick session.db queue) :
    (∃ replies', executeQueue (executeCommand target clock (depth + 1)) queue replies session =
        some (.ok (.array replies'),
          { advanceAll target clock session queue with client := ⟨false, []⟩ })) ∧
      attempts (executeCommand target clock (depth + 1)) queue session = queue.length := by
  induction queue generalizing replies session with
  | nil => exact ⟨⟨replies, rfl⟩, rfl⟩
  | cons c rest ih =>
      rcases List.forall_mem_cons.mp plain with ⟨plainHead, plainRest⟩
      rcases (effect_eq_ok_iff target plainHead _ _).mpr accepted.1 with ⟨reply, replied⟩
      have run := executeCommand_plain target clock plainHead depth session
      rw [replied] at run
      rw [executeQueue, attempts, run]
      have later : QueueAccepted target clock (advance target clock session c).tick
        (advance target clock session c).db rest := accepted.2
      rcases ih plainRest (replies ++ [reply]) _ later with ⟨done, count⟩
      exact ⟨done, congrArg (· + 1) count⟩

/-- What EXEC makes of the outcome of the queued command with which it ends early. -/
def stopped : Outcome String RespType → Outcome String RespType
  | .error e => .error ("Failed to execute queued commands. E: " ++ e)
  | outcome => outcome

/-- A queue that is not accepted is executed up to and including the first command that
the maps do not accept. -/
theorem executeQueue_of_refused {queue : List Command} (plain : ∀ c ∈ queue, ¬c.Controls)
    (depth : ℕ) (replies : List RespType) (session : Session)
    (refused : ¬QueueAccepted target clock session.tick session.db queue) :
    ∃ front c rest, queue = front ++ c :: rest ∧
      QueueAccepted target clock session.tick session.db front ∧
      let middle := advanceAll target clock session front
      ¬Accepted target (clock middle.tick) middle.db c ∧
        executeQueue (executeCommand target clock (depth + 1)) queue replies session =
          some (stopped (effect target (clock middle.tick) middle.db c).1,
            advance target clock middle c) := by
  induction queue generalizing replies session with
  | nil => exact absurd trivial refused
  | cons c rest ih =>
      rcases List.forall_mem_cons.mp plain with ⟨plainHead, plainRest⟩
      have run := executeCommand_plain target clock plainHead depth session
      have okIff := effect_eq_ok_iff target plainHead (clock session.tick) session.db
      by_cases accepted : Accepted target (clock session.tick) session.db c
      · rcases okIff.mpr accepted with ⟨reply, replied⟩
        have later : ¬QueueAccepted target clock (advance target clock session c).tick
          (advance target clock session c).db rest := fun later => refused ⟨accepted, later⟩
        obtain ⟨front, last, behind, rfl, before, refusal, ran⟩ :=
          ih plainRest (replies ++ [reply]) _ later
        refine ⟨c :: front, last, behind, rfl, ⟨accepted, before⟩, refusal, ?_⟩
        rw [executeQueue, run, replied]
        exact ran
      · refine ⟨[], c, rest, rfl, trivial, accepted, ?_⟩
        rw [executeQueue, run]
        cases replied : (effect target (clock session.tick) session.db c).1 with
        | ok reply => exact absurd (okIff.mp ⟨reply, replied⟩) accepted
        | error reason => simp only [advanceAll, List.foldl_nil, replied, stopped]
        | panic => simp only [advanceAll, List.foldl_nil, replied, stopped]

/-! ## One dispatch -/

/-- What one dispatch to a client with a well-formed transaction state can do. -/
inductive Transition (target : Target) (clock : ℕ → Instant) (session : Session) :
    Command → Outcome String RespType → Session → Prop
  | queued {cmd : Command} (inside : session.client.inTransaction = true)
      (plain : ¬cmd.Controls) :
      Transition target clock session cmd (.ok (.simpleString "QUEUED")) { session with client :=
        { session.client with queuedCommands := session.client.queuedCommands ++ [cmd] } }
  | nested (inside : session.client.inTransaction = true) :
      Transition target clock session .multi (.error "Can not nest multi") session
  | opened (outside : session.client.inTransaction = false) :
      Transition target clock session .multi (.ok (.simpleString "Ok"))
        { session with client := ⟨true, []⟩ }
  | dropped : Transition target clock session .discard (.ok (.simpleString "Ok"))
      { session with client := ⟨false, []⟩ }
  | committed {replies : List RespType} (accepted : QueueAccepted target clock session.tick
        session.db session.client.queuedCommands) :
      Transition target clock session .exec (.ok (.array replies))
        { advanceAll target clock session session.client.queuedCommands with
          client := ⟨false, []⟩ }
  | refused {outcome : Outcome String RespType} {executed : List Command}
      (refusal : ¬QueueAccepted target clock session.tick session.db
        session.client.queuedCommands) (part : executed <+: session.client.queuedCommands) :
      Transition target clock session .exec outcome (advanceAll target clock session executed)
  | plain {cmd : Command} (outside : session.client.inTransaction = false)
      (plain : ¬cmd.Controls) :
      Transition target clock session cmd (effect target (clock session.tick) session.db cmd).1
        (advance target clock session cmd)

/-- EXEC of a well-formed client nests one call and no more. -/
theorem executeCommand_exec (target : Target) (clock : ℕ → Instant) (depth : ℕ)
    (session : Session) (wf : session.client.WellFormed) :
    ∃ outcome session', executeCommand target clock (depth + 2) session .exec =
        some (outcome, session') ∧ Transition target clock session .exec outcome session' := by
  by_cases accepted : QueueAccepted target clock session.tick session.db
    session.client.queuedCommands
  · rcases executeQueue_of_accepted wf.plain depth [] session accepted with ⟨⟨replies, ran⟩, -⟩
    exact ⟨_, _, ran, .committed accepted⟩
  · obtain ⟨front, c, rest, split, -, -, ran⟩ :=
      executeQueue_of_refused wf.plain depth [] session accepted
    have part : front ++ [c] <+: session.client.queuedCommands :=
      ⟨rest, by rw [split, List.append_assoc, List.singleton_append]⟩
    have last : advance target clock (advanceAll target clock session front) c =
        advanceAll target clock session (front ++ [c]) := by
      rw [advanceAll, advanceAll, List.foldl_append]
      rfl
    rw [last] at ran
    exact ⟨_, _, ran, .refused accepted part⟩

/-- For a well-formed client two nested calls are enough, and dispatch does one of
the things above. -/
theorem dispatch_transition (target : Target) (clock : ℕ → Instant) (depth : ℕ)
    (session : Session) (wf : session.client.WellFormed) (cmd : Command) :
    ∃ outcome session', dispatch target clock (depth + 2) session cmd = some (outcome, session') ∧
      Transition target clock session cmd outcome session' := by
  have exec := executeCommand_exec target clock depth session wf
  by_cases inside : session.client.inTransaction = true
  · simp only [dispatch, if_pos inside]
    cases cmd with
    | multi => exact ⟨_, _, rfl, .nested inside⟩
    | discard => exact ⟨_, _, rfl, .dropped⟩
    | exec => exact exec
    | _ => exact ⟨_, _, rfl, .queued inside id⟩
  · simp only [dispatch, if_neg inside]
    rw [Bool.not_eq_true] at inside
    cases cmd with
    | multi => exact ⟨_, _, rfl, .opened inside⟩
    | discard => exact ⟨_, _, rfl, .dropped⟩
    | exec => exact exec
    | _ => exact ⟨_, _, executeCommand_plain target clock id _ session, .plain inside id⟩

/-- Dispatch keeps the transaction state well formed. -/
theorem Transition.wellFormed {session session' : Session} {cmd : Command}
    {outcome : Outcome String RespType}
    (transition : Transition target clock session cmd outcome session')
    (wf : session.client.WellFormed) : session'.client.WellFormed := by
  cases transition with
  | queued inside plain =>
      refine ⟨fun outside => ?_, fun c member => ?_⟩
      · exact absurd (inside.symm.trans outside) (by decide)
      · rcases List.mem_append.mp member with old | new
        · exact wf.plain c old
        · exact List.mem_singleton.mp new ▸ plain
  | nested => exact wf
  | opened | dropped | committed => exact Client.wellFormed_of_queue_nil _
  | refused => exact client_advanceAll session _ ▸ wf
  | plain => exact wf

end Dispatcher

end Ember
