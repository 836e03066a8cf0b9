import Ember.Config.Services

/-!
# Expired values

A key is removed in two calls, its value first and its deadline after that.  So as long
as nobody writes to the key or prolongs its life, there is no moment at which the value
is there without its deadline, however many readers and cleanups are about to remove it
at once.  A request whose calls all come after the deadline does not get to see the
value.
-/

namespace Ember

open Ember.Base Ember.Base.Framing Ember.Database Ember.Resp

/-- Commands that do not write to the key and do not give it a later deadline.  Under NX
a deadline is given only to a key without one, under LT only an earlier one. -/
def Command.NeverProlongs (key : String) : Command → Prop
  | .set key' _ _ | .lpush key' _ | .rpush key' _ => key' ≠ key
  | .expire key' _ option => key' = key → ∃ opt, option = some opt ∧ opt ≠ "XX" ∧ opt ≠ "GT"
  | _ => True

namespace Expired

section

variable (key : String) (deadline : Instant)

/-- As long as the key is there, it has a deadline, and none after this one. -/
def Bound (db : DB) : Prop :=
  ∀ value, db.data.lookup key = some value →
    ∃ due ≤ deadline, db.expirations.lookup key = some due

/-- The key is not there. -/
def Gone (db : DB) : Prop :=
  db.data.lookup key = none

/-- What every task may do to the key. -/
structure Wanes (db db' : DB) : Prop where
  bound : Bound key deadline db → Bound key deadline db'
  gone : Gone key db → Gone key db'

/-- All tasks rely on it and guarantee it. -/
def setting : Setting DB Env Call Call.Response :=
  ⟨Call.step, Wanes key deadline, Wanes key deadline⟩

/-- All calls come after the deadline. -/
def Late (admits : Env → Prop) : Prop :=
  ∀ env, admits env → deadline < env.now

/-- The answers of a server that does not have the key. -/
def Answers : (ask : Ask) → ask.Response → Prop
  | .execute (.get key'), reply | .execute (.lrange key' _ _), reply =>
      key' = key → reply = .ok (.bulkString "nil")
  | _, _ => True

end

variable {key : String} {deadline : Instant} {db db' : DB} {admits : Env → Prop}

theorem Gone.bound (gone : Gone key db) : Bound key deadline db := by
  intro value found
  cases gone.symm.trans found

theorem Bound.gone_of_late (bound : Bound key deadline db)
    (late : ∀ due, db.expirations.lookup key = some due → deadline < due) : Gone key db := by
  cases found : db.data.lookup key with
  | none => exact found
  | some value =>
      rcases bound value found with ⟨due, early, given⟩
      exact absurd (late due given) (Nat.not_lt.mpr early)

theorem stable_bound : Stable (setting key deadline).rely (Bound key deadline) :=
  fun wanes => wanes.bound

/-- The conditions between two calls: the key is gone under some circumstances. -/
theorem stable_gone_if (circumstance : Prop) :
    Stable (setting key deadline).rely
      fun db => Bound key deadline db ∧ (circumstance → Gone key db) :=
  fun wanes holds => ⟨wanes.bound holds.1, fun given => wanes.gone (holds.2 given)⟩

theorem stable_fact (fact : Prop) :
    Stable (setting key deadline).rely fun db => Bound key deadline db ∧ fact :=
  fun wanes holds => ⟨wanes.bound holds.1, holds.2⟩

/-! ## Single calls -/

theorem Wanes.refl (db : DB) : Wanes key deadline db db :=
  ⟨id, id⟩

theorem Wanes.of_gone (gone : Gone key db') : Wanes key deadline db db' :=
  ⟨fun _ => gone.bound, fun _ => gone⟩

theorem Wanes.of_lookup (data : db'.data.lookup key = db.data.lookup key)
    (expirations : db'.expirations.lookup key = db.expirations.lookup key) :
    Wanes key deadline db db' where
  bound := by
    intro bound value found
    rw [expirations]
    exact bound value (data ▸ found)
  gone := data.trans

/-- A call that works on another key. -/
theorem Wanes.of_on {key' : String} {op : Call} (on : op.On key') (other : key' ≠ key) (env : Env)
    (db : DB) : Wanes key deadline db (op.step env db).2 := by
  have same := on.entry_step other.symm env db
  exact .of_lookup (congrArg Entry.value same) (congrArg Entry.deadline same)

theorem Wanes.dataRemove (db : DB) (key' : String) :
    Wanes key deadline db { db with data := db.data.erase key' } := by
  by_cases same : key' = key
  · subst same
    exact .of_gone (Finmap.lookup_erase key' db.data)
  · exact .of_lookup (Finmap.lookup_erase_ne (Ne.symm same)) rfl

theorem Wanes.expirationsRemove {key' : String} (gone : key' = key → Gone key db) :
    Wanes key deadline db { db with expirations := db.expirations.erase key' } := by
  by_cases same : key' = key
  · exact .of_gone (gone same)
  · exact .of_lookup rfl (Finmap.lookup_erase_ne (Ne.symm same))

/-- A later deadline is given only to a key that is gone. -/
theorem Wanes.expirationsInsert {due : Instant} (gone : deadline < due → Gone key db) :
    Wanes key deadline db { db with expirations := db.expirations.insert key due } := by
  by_cases early : due ≤ deadline
  · exact ⟨fun _ _ _ => ⟨due, early, Finmap.lookup_insert _⟩, id⟩
  · exact .of_gone (gone (Nat.not_le.mp early))

/-! ## What the tasks do -/

variable {α : Type}

/-- A call that changes nothing. -/
theorem triple_reads {op : Call} {circumstance : op.Response → Prop}
    (reads : ∀ env db, (op.step env db).2 = db)
    (gives : ∀ env db, admits env → Bound key deadline db →
      circumstance (op.step env db).1 → Gone key db) :
    Prog.Triple (setting key deadline) admits (Bound key deadline) (perform op)
      fun answer db => Bound key deadline db ∧ (circumstance answer → Gone key db) := by
  apply Prog.Triple.perform stable_bound fun answer => stable_gone_if (circumstance answer)
  intro env db admitted bound
  dsimp only [setting]
  rw [reads]
  exact ⟨.refl db, bound, gives env db admitted bound⟩

theorem triple_bound_reads {op : Call} (reads : ∀ env db, (op.step env db).2 = db) :
    Prog.Triple (setting key deadline) admits (Bound key deadline) (perform op)
      fun _ => Bound key deadline := by
  have silent := @triple_reads key deadline admits op (fun _ => False) reads
    fun _ _ _ _ => False.elim
  exact silent.weaken stable_bound (fun _ => id) fun _ _ => And.left

/-- The value is removed, then the deadline. -/
theorem triple_remove (key' : String) {rest : DbProg α} {Q : α → DB → Prop}
    (later : Prog.Triple (setting key deadline) admits (Bound key deadline) rest Q) :
    Prog.Triple (setting key deadline) admits (Bound key deadline)
      (do perform (.dataRemove key'); perform (.expirationsRemove key'); rest) Q := by
  apply Prog.Triple.bind (Q := fun _ db => Bound key deadline db ∧ (key' = key → Gone key db))
  · apply Prog.Triple.perform stable_bound fun _ => stable_gone_if _
    intro env db _ bound
    refine ⟨.dataRemove db key', (Wanes.dataRemove db key').bound bound, ?_⟩
    rintro rfl
    exact Finmap.lookup_erase key' db.data
  · intro _
    apply Prog.Triple.bind (Q := fun _ => Bound key deadline) _ fun _ => later
    apply Prog.Triple.perform (stable_gone_if _) fun _ => stable_bound
    intro env db _ holds
    have wanes : Wanes key deadline db _ := .expirationsRemove holds.2
    exact ⟨wanes, wanes.bound holds.1⟩

/-- After the deadline a key that is not reported as expired is gone. -/
theorem triple_lazyExpiration :
    Prog.Triple (setting key deadline) admits (Bound key deadline) (DB.lazyExpiration key)
      fun expired db => Bound key deadline db ∧
        (Late deadline admits ∧ expired = false → Gone key db) := by
  have missing : Prog.Triple (setting key deadline) admits (Bound key deadline)
      (perform (.expirationsGet key))
      fun answer db => Bound key deadline db ∧ (answer = none → Gone key db) := by
    apply triple_reads fun _ _ => rfl
    intro env db _ bound none
    apply bound.gone_of_late
    intro due given
    cases given.symm.trans none
  apply missing.bind
  rintro (_ | due)
  · apply Prog.Triple.ret (stable_gone_if _)
    exact fun db holds => ⟨holds.1, fun _ => holds.2 rfl⟩
  · have check : Prog.Triple (setting key deadline) admits (Bound key deadline)
        (perform (.isExpired key)) fun expired db => Bound key deadline db ∧
          (Late deadline admits ∧ expired = false → Gone key db) := by
      apply triple_reads fun _ _ => rfl
      rintro env db admitted bound ⟨late, living⟩
      apply bound.gone_of_late
      intro due given
      have unexpired : (db.expirations.lookup key).any (· < env.now) = false := living
      rw [given] at unexpired
      exact (late env admitted).trans_le (not_lt.mp (of_decide_eq_false unexpired))
    apply (check.weaken (stable_gone_if _) (fun _ => And.left) fun _ _ => id).bind
    rintro (_ | _)
    · exact .ret (stable_gone_if _) fun _ => id
    · apply (triple_remove key (.ret stable_bound _)).weaken (stable_gone_if _) (fun _ => And.left)
        fun _ _ => id
      exact fun db bound => ⟨bound, fun none => by cases none.2⟩

/-- What a reader gets that finds the key gone after the deadline. -/
theorem triple_dataGet :
    Prog.Triple (setting key deadline) admits
      (fun db => Bound key deadline db ∧ (Late deadline admits ∧ false = false → Gone key db))
      (perform (.dataGet key))
      fun answer db => Bound key deadline db ∧ (Late deadline admits → answer = none) := by
  apply Prog.Triple.perform (stable_gone_if _)
    fun answer => stable_fact (Late deadline admits → answer = none)
  intro env db admitted holds
  exact ⟨.refl db, holds.1, fun late => holds.2 ⟨late, rfl⟩⟩

theorem triple_get :
    Prog.Triple (setting key deadline) admits (Bound key deadline) (DB.get key)
      fun result db => Bound key deadline db ∧ (Late deadline admits → result = .ok DB.nil) := by
  apply triple_lazyExpiration.bind
  rintro (_ | _)
  · apply triple_dataGet.bind
    rintro (_ | value)
    · exact .ret (stable_fact _) fun db holds => ⟨holds.1, fun _ => rfl⟩
    · exact .ret (stable_fact _) fun db holds => ⟨holds.1, fun late => nomatch holds.2 late⟩
  · exact .ret (stable_gone_if _) fun db holds => ⟨holds.1, fun _ => rfl⟩

theorem triple_lrange (target : Target) (first last : Int32) :
    Prog.Triple (setting key deadline) admits (Bound key deadline)
      (DB.lrange target key first last)
      fun result db => Bound key deadline db ∧ (Late deadline admits → result = .ok DB.nil) := by
  apply triple_lazyExpiration.bind
  rintro (_ | _)
  · apply triple_dataGet.bind
    rintro (_ | _ | _)
    · exact .ret (stable_fact _) fun db holds => ⟨holds.1, fun _ => rfl⟩
    · exact .ret (stable_fact _) fun db holds => ⟨holds.1, fun late => nomatch holds.2 late⟩
    · exact .ret (stable_fact _) fun db holds => ⟨holds.1, fun late => nomatch holds.2 late⟩
  · exact .ret (stable_gone_if _) fun db holds => ⟨holds.1, fun _ => rfl⟩

/-- EXPIRE gives a later deadline only to a key that is gone. -/
theorem triple_updateExpiry {opt : String} (noXX : opt ≠ "XX") (noGT : opt ≠ "GT")
    (due : Instant) :
    Prog.Triple (setting key deadline) admits (Bound key deadline)
      (DB.updateExpiry key due (some opt))
      fun update db => Bound key deadline db ∧
        (update = some true ∧ deadline < due → Gone key db) := by
  simp only [DB.updateExpiry, if_neg noXX, if_neg noGT]
  split_ifs
  · have absent : Prog.Triple (setting key deadline) admits (Bound key deadline)
        (perform (.expirationsContainsKey key))
        fun answer db => Bound key deadline db ∧ (answer = false → Gone key db) := by
      apply triple_reads fun _ _ => rfl
      intro env db _ bound absent
      apply bound.gone_of_late
      intro due given
      have without : (db.expirations.lookup key).isSome = false := absent
      rw [given] at without
      cases without
    apply absent.bind
    intro answer
    apply Prog.Triple.ret (stable_gone_if _)
    intro db holds
    refine ⟨holds.1, fun updates => holds.2 ?_⟩
    exact Bool.not_eq_true' _ ▸ Option.some.inj updates.1
  · have earlier : Prog.Triple (setting key deadline) admits (Bound key deadline)
        (perform (.expirationsGet key))
        fun answer db => Bound key deadline db ∧
          (answer.any (due < ·) = true ∧ deadline < due → Gone key db) := by
      apply triple_reads fun _ _ => rfl
      rintro env db _ bound ⟨sooner, prolongs⟩
      apply bound.gone_of_late
      intro given found
      have less : (db.expirations.lookup key).any (due < ·) = true := sooner
      rw [found] at less
      exact prolongs.trans (of_decide_eq_true less)
    apply earlier.bind
    intro answer
    apply Prog.Triple.ret (stable_gone_if _)
    intro db holds
    exact ⟨holds.1, fun updates => holds.2 ⟨Option.some.inj updates.1, updates.2⟩⟩
  · apply Prog.Triple.ret stable_bound
    intro db bound
    refine ⟨bound, fun updates => ?_⟩
    cases updates.1

theorem triple_expire {opt : String} (noXX : opt ≠ "XX") (noGT : opt ≠ "GT") (due : Instant) :
    Prog.Triple (setting key deadline) admits (Bound key deadline)
      (DB.expire key due (some opt)) fun _ => Bound key deadline := by
  apply (triple_bound_reads fun _ _ => rfl).bind
  rintro (_ | _)
  · exact .ret stable_bound fun _ => id
  · apply (triple_updateExpiry noXX noGT due).bind
    rintro (_ | _ | _)
    · exact .ret (stable_gone_if _) fun _ => And.left
    · exact .ret (stable_gone_if _) fun _ => And.left
    · have insert : Prog.Triple (setting key deadline) admits
          (fun db => Bound key deadline db ∧ (some true = some true ∧ deadline < due → Gone key db))
          (perform (.expirationsInsert key due)) fun _ => Bound key deadline := by
        apply Prog.Triple.perform (stable_gone_if _) fun _ => stable_bound
        intro env db _ holds
        have wanes : Wanes key deadline db _ :=
          .expirationsInsert fun later => holds.2 ⟨rfl, later⟩
        exact ⟨wanes, wanes.bound holds.1⟩
      exact insert.bind fun _ => .ret stable_bound fun _ => id

theorem triple_reapSample (now : Instant) (sample : List String) (expired : ℕ) :
    Prog.Triple (setting key deadline) admits (Bound key deadline)
      (DB.reapSample now sample expired) fun _ => Bound key deadline := by
  induction sample generalizing expired with
  | nil => exact .ret stable_bound fun _ => id
  | cons key' rest ih =>
      apply (triple_bound_reads fun _ _ => rfl).bind
      rintro (_ | due)
      · exact ih expired
      · dsimp only
        split
        · exact triple_remove key' (ih (expired + 1))
        · exact ih expired

theorem triple_activeExpirationCycle (passes : ℕ) :
    Prog.Triple (setting key deadline) admits (Bound key deadline)
      (DB.activeExpirationCycle passes) fun _ => Bound key deadline := by
  have pass : Prog.Triple (setting key deadline) admits (Bound key deadline)
      DB.activeExpirationPass fun _ => Bound key deadline := by
    apply (triple_bound_reads fun _ _ => rfl).bind
    intro now
    apply (triple_bound_reads fun _ _ => rfl).bind
    intro total
    dsimp only
    split
    · exact .ret stable_bound fun _ => id
    · apply (triple_bound_reads fun _ _ => rfl).bind
      intro skip
      apply (triple_bound_reads fun _ _ => rfl).bind
      intro order
      apply (triple_reapSample now _ 0).bind
      exact fun _ => .ret stable_bound fun _ => id
  induction passes with
  | zero => exact .ret stable_bound fun _ => id
  | succ passes ih =>
      apply pass.bind
      rintro (_ | _)
      · exact .ret stable_bound fun _ => id
      · exact ih

/-! ## Connections -/

/-- Calls on other keys. -/
theorem triple_others {prog : DbProg α}
    (others : prog.Calls fun op => ∃ key', key' ≠ key ∧ op.On key') :
    Prog.Triple (setting key deadline) admits (Bound key deadline) prog
      fun _ => Bound key deadline := by
  refine (Prog.Triple.of_calls stable_bound ?_ others).weaken stable_bound (fun _ => id)
    fun _ _ => And.left
  rintro env op db ⟨key', other, on⟩ bound
  have wanes : Wanes key deadline db (op.step env db).2 := .of_on on other env db
  exact ⟨wanes, wanes.bound bound⟩

theorem triple_reply {result : DbProg (Outcome String α)} {reply : α → Outcome String RespType}
    {answers : Outcome String RespType → Prop} {value : α}
    (triple : Prog.Triple (setting key deadline) admits (Bound key deadline) result
      fun outcome db => Bound key deadline db ∧ (Late deadline admits → outcome = .ok value))
    (shown : answers (reply value)) :
    Prog.Triple (setting key deadline) admits (Bound key deadline)
      (do return Dispatcher.replyWith reply (← result))
      fun outcome db => Bound key deadline db ∧ (Late deadline admits → answers outcome) := by
  apply triple.bind
  intro outcome
  apply Prog.Triple.ret (stable_fact _)
  intro db holds
  refine ⟨holds.1, fun late => ?_⟩
  rw [holds.2 late]
  exact shown

theorem answers_of_other {c : Command} (other : c.key ≠ some key)
    (outcome : Outcome String RespType) : Answers key (.execute c) outcome := by
  cases c with
  | get key' | lrange key' =>
      rintro rfl
      exact absurd rfl other
  | _ => trivial

theorem triple_own (target : Target) {c : Command} {prog : DbProg (Outcome String RespType)}
    (allowed : c.NeverProlongs key) (own : c.key = some key)
    (found : Dispatcher.operation target c = some prog) :
    Prog.Triple (setting key deadline) admits (Bound key deadline) prog
      fun outcome db => Bound key deadline db ∧
        (Late deadline admits → Answers key (.execute c) outcome) := by
  cases c with
  | get key' =>
      cases own
      cases found
      exact triple_reply triple_get fun _ => rfl
  | lrange key' first last =>
      cases own
      cases found
      exact triple_reply (triple_lrange target first last) fun _ => rfl
  | delete key' =>
      cases own
      cases found
      apply triple_remove key (.ret stable_bound _)
      exact fun db bound => ⟨bound, fun _ => trivial⟩
  | expire key' due option =>
      cases own
      cases found
      rcases allowed rfl with ⟨opt, rfl, noXX, noGT⟩
      apply (triple_expire noXX noGT due).bind
      exact fun _ => .ret stable_bound fun db bound => ⟨bound, fun _ => trivial⟩
  | set key' | lpush key' | rpush key' =>
      cases own
      exact absurd rfl allowed
  | ping | echo | multi | discard | exec | save => cases own

/-- A connection keeps the key bound; after the deadline it is served as if the key were
gone. -/
theorem triple_handle (target : Target) {events : List ReadEvent} {conn : Connection Client}
    (frames : ∀ resp, .frame resp ∈ requests target events conn.buf →
      Asks target (Command.NeverProlongs key) resp)
    (queued : conn.state.Queues (Command.NeverProlongs key)) :
    Prog.Triple (setting key deadline) admits (Bound key deadline)
      (Task.handle (.maps target) events conn)
      fun result db => Bound key deadline db ∧
        (Task.handle (.asks target) events conn).Returns
          (fun ask answer => Late deadline admits → Answers key ask answer) result := by
  have clock : Prog.Triple (setting key deadline) admits (Bound key deadline) (perform .now)
      fun now db => Bound key deadline db ∧
        (Late deadline admits → Answers key .clock now) := by
    apply (triple_bound_reads fun _ _ => rfl).weaken stable_bound fun _ => id
    exact fun _ _ bound => ⟨bound, fun _ => trivial⟩
  have anyTime : ∀ now, (Late deadline admits → Answers key .clock now) → True :=
    fun _ _ => trivial
  exact Task.triple_handle (fun _ => rfl) stable_bound anyTime
    (Ask.triple_answeredBy clock (fun _ _ => triple_own target) (fun _ => triple_others)
      fun _ outcome other _ => answers_of_other other outcome)
    (fun resp member => (frames resp member).asksAt) queued

theorem triple_worker (spill : Spill UInt8) (target : Target) {worker : Worker}
    (modest : ∀ events, worker = .connection events →
      ∀ resp, .frame resp ∈ requests target events [] →
        Asks target (Command.NeverProlongs key) resp) :
    Prog.Triple (setting key deadline) admits (Bound key deadline) (worker.prog spill target)
      fun _ => Bound key deadline := by
  cases worker with
  | cleanup passes =>
      apply (triple_activeExpirationCycle passes).bind
      exact fun _ => .ret stable_bound fun _ => id
  | connection events =>
      apply (triple_handle target (modest events rfl) (Client.queues_new _)).bind
      exact fun _ => .ret (stable_fact _) fun _ => And.left

/-- The replies to a frame that reads the key. -/
theorem reply_of_served {target : Target} {c : Command}
    (reads : c = .get key ∨ ∃ first last, c = .lrange key first last) {resp reply : RespType}
    (asks : Asks target (· = c) resp) {client next : Client} {outcome : Outcome String RespType}
    (served : (Task.serve (.asks target) resp client).Returns (Answers key) (outcome, next))
    (given : answer outcome = some reply) :
    reply = .bulkString "nil" ∨ reply = .simpleString "QUEUED" ∨ ∃ e, reply = .simpleError e := by
  have plain : ¬c.Controls := by
    rcases reads with rfl | ⟨first, last, rfl⟩ <;> exact id
  have gone : Answers key (.execute c) outcome → outcome = .ok (.bulkString "nil") := by
    intro answers
    rcases reads with rfl | ⟨first, last, rfl⟩ <;> exact answers rfl
  rcases Task.returns_serve_asks plain served asks with ⟨e, rfl⟩ | rfl | rfl | answers
  · cases given
    exact Or.inr (Or.inr ⟨e, rfl⟩)
  · cases given
  · cases given
    exact Or.inr (Or.inl rfl)
  · rw [gone answers] at given
    cases given
    exact Or.inl rfl

end Expired

/-- A connection that waits for what its next reads give. -/
def Worker.waiting (target : Target) (events : List ReadEvent) (conn : Connection Client) :
    DbProg (Option (Exit × Connection Client)) := do
  return some (← Task.handle (.maps target) events conn)

/-- A key has a deadline, and no connection writes to it or prolongs its life.  Under
every interleaving of connections and cleanup cycles, a connection that waits for input
and is served after the deadline is served as if the key did not exist, inside of
transactions as well: GET and LRANGE are answered with nil, however far other tasks have
come with its removal. -/
theorem expired_value_never_served (spill : Spill UInt8) (target : Target) {key : String}
    {deadline : Instant} {db : DB}
    (bound : Expired.Bound key deadline db) {workers : List Worker}
    (modest : ∀ events, .connection events ∈ workers →
      ∀ resp, .frame resp ∈ requests target events [] →
        Asks target (Command.NeverProlongs key) resp)
    {early late : List (ℕ × Env)} {i : ℕ} {events : List ReadEvent} {conn : Connection Client}
    (waits : (Pool.run Call.step ⟨db, workers.map (Worker.prog spill target)⟩ early).threads[i]? =
      some (Worker.waiting target events conn))
    (frames : ∀ resp, .frame resp ∈ requests target events conn.buf →
      Asks target (Command.NeverProlongs key) resp)
    (queued : conn.state.Queues (Command.NeverProlongs key))
    (after : ∀ turn ∈ late, turn.1 = i → deadline < turn.2.now) {exit : Exit}
    {conn' : Connection Client}
    (ended : (Pool.run Call.step ⟨db, workers.map (Worker.prog spill target)⟩
      (early ++ late)).threads[i]? = some (.ret (some (exit, conn')))) :
    (Task.handle (.asks target) events conn).Returns (Expired.Answers key) (exit, conn') ∧
    ∃ (answered rest : List Incoming) (replies : List RespType),
      requests target events conn.buf = answered ++ rest ∧ replies.length = answered.length ∧
      conn'.writer.written = conn.writer.written ++ replies.flatMap RespType.toBytes ∧
      ∀ (n : ℕ) (resp reply : RespType) (c : Command),
        answered[n]? = some (.frame resp) → replies[n]? = some reply →
        (c = .get key ∨ ∃ first last, c = .lrange key first last) → Asks target (· = c) resp →
        reply = .bulkString "nil" ∨ reply = .simpleString "QUEUED" ∨
          ∃ e, reply = .simpleError e := by
  let pool : Pool DB Call Call.Response (Option (Exit × Connection Client)) :=
    ⟨db, workers.map (Worker.prog spill target)⟩
  let setting := Expired.setting key deadline
  have initially : pool.Agrees setting (fun _ _ => True) fun _ _ => Expired.Bound key deadline := by
    intro j thread found
    rw [List.getElem?_map, Option.map_eq_some_iff] at found
    rcases found with ⟨worker, listed, rfl⟩
    refine ⟨_, bound, Expired.triple_worker spill target ?_⟩
    rintro events rfl
    exact modest events (List.mem_of_getElem? listed)
  have middle : (Pool.run Call.step pool early).Agrees setting _ _ :=
    initially.run id fun _ _ => trivial
  have still : Expired.Bound key deadline (Pool.run Call.step pool early).shared :=
    initially.run_shared id Expired.stable_bound bound fun _ _ => trivial
  -- From here on the calls of the one connection come after the deadline.
  have resumed : (Pool.run Call.step pool early).Agrees setting
      (fun j env => j = i → deadline < env.now)
      fun j result _ => j = i → ∀ exit conn', result = some (exit, conn') →
        (Task.handle (.asks target) events conn).Returns (Expired.Answers key) (exit, conn') := by
    intro j thread found
    by_cases own : j = i
    · subst own
      cases waits.symm.trans found
      refine ⟨_, still, (Expired.triple_handle target frames queued).bind fun result => ?_⟩
      apply Prog.Triple.ret (Expired.stable_fact _)
      rintro db ⟨-, returns⟩ - exit conn' ⟨⟩
      exact returns.mono fun ask answer answers => answers fun env late => late rfl
    · rcases middle j thread found with ⟨P, holds, triple⟩
      refine ⟨P, holds, (triple.restrict fun _ _ => trivial).weaken triple.stable (fun _ => id) ?_⟩
      exact fun _ _ _ same => absurd same own
  have ending : (Pool.run Call.step (Pool.run Call.step pool early) late).Agrees setting _ _ :=
    resumed.run id after
  rw [Pool.run_append] at ended
  have returns := ending.returned ended rfl exit conn' rfl
  obtain ⟨answered, rest, replies, client, finished⟩ := Task.finished_handle returns
  refine ⟨returns, answered, rest, replies, finished.requests, finished.answers.length_eq,
    finished.written, ?_⟩
  intro n resp reply c asked replied reads asks
  rcases finished.answers.served_at asked replied with ⟨client, outcome, next, served, given⟩
  exact Expired.reply_of_served reads asks served given

/-- A client reads the key while another one is in the middle of removing it: the value
is gone already, its deadline is still there. -/
theorem expired_value_never_served_get :
    let db : DB := ⟨FiniteMap.ofList [("k", .string "v")], FiniteMap.ofList [("k", 5)]⟩
    let get := ReadEvent.bytes (utf8Bytes "GET k\r\n")
    let workers := [Worker.connection [get], .connection [get]]
    let late := [1, 1, 1, 1, 0, 0, 0, 0, 0].map fun i => (i, Env.at 6)
    let final := Pool.run Call.step ⟨db, workers.map (Worker.prog .atFlush ⟨true, 24⟩)⟩ late
    final.threads[0]?.bind Worker.output = some (utf8Bytes "$3\r\nnil\r\n") ∧
      ∃ replies : List RespType,
        utf8Bytes "$3\r\nnil\r\n" = replies.flatMap RespType.toBytes ∧
        ∀ text, replies = [.bulkString text] → text = "nil" := by
  intro db get workers late final
  have sends : final.threads[0]?.bind Worker.output = some (utf8Bytes "$3\r\nnil\r\n") := by
    decide +kernel
  rcases Worker.ended_of_output sends with ⟨exit, conn', ended, written⟩
  let resp : RespType := .array [.bulkString "GET", .bulkString "k"]
  have frames : ∀ resp', .frame resp' ∈ requests ⟨true, 24⟩ [get] [] →
      Asks ⟨true, 24⟩ (· = .get "k") resp' := by
    rintro resp' member now c extracted
    cases List.mem_singleton.mp member
    cases extracted
    rfl
  have modest : ∀ resp', .frame resp' ∈ requests ⟨true, 24⟩ [get] [] →
      Asks ⟨true, 24⟩ (Command.NeverProlongs "k") resp' := by
    intro resp' member now c extracted
    rw [frames resp' member now c extracted]
    trivial
  have bound : Expired.Bound "k" 5 db := fun _ _ => ⟨5, le_rfl, rfl⟩
  have after : ∀ turn ∈ late, turn.1 = 0 → 5 < turn.2.now := by
    decide +kernel
  have waits : (Pool.run Call.step
      ⟨db, workers.map (Worker.prog .atFlush ⟨true, 24⟩)⟩ []).threads[0]? =
      some (Worker.waiting ⟨true, 24⟩ [get] (Connection.new .atFlush Client.new)) := rfl
  have listed : ∀ events, .connection events ∈ workers →
      ∀ resp', .frame resp' ∈ requests ⟨true, 24⟩ events [] →
        Asks ⟨true, 24⟩ (Command.NeverProlongs "k") resp' := by
    intro events member
    rcases List.mem_pair.mp member with same | same
    all_goals
      cases same
      exact modest
  obtain ⟨-, answered, rest, replies, found, length, sent, served⟩ :=
    expired_value_never_served .atFlush ⟨true, 24⟩ bound listed waits modest
      (Client.queues_new _) after ended
  refine ⟨sends, replies, written ▸ sent, ?_⟩
  rintro text rfl
  have asked : answered[0]? = some (.frame resp) := by
    rcases answered with _ | ⟨first, others⟩
    · cases length
    · cases (List.cons.inj found).1
      rfl
  have asks := frames resp (List.mem_singleton.mpr rfl)
  rcases served 0 resp (.bulkString text) (.get "k") asked rfl (Or.inl rfl) asks with
    shown | shown | ⟨e, shown⟩
  · exact RespType.bulkString.inj shown
  · cases shown
  · cases shown

end Ember
