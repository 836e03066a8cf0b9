import Ember.Config.Services

/-!
# Values that have not expired

The removal of an expired key looks at the deadline first and acts on it later.  As long
as nobody writes to the key or shortens its life, what was looked at stays right until
the deadline: neither readers nor cleanups remove the key before, and every client is
shown its value.
-/

namespace Ember

open Ember.Base Ember.Base.Framing Ember.Database Ember.Resp

/-- Commands that do not write to the key and do not give it an earlier deadline.  Under
NX a deadline is given only to a key without one, under GT only a later one. -/
def Command.NeverShortens (key : String) : Command → Prop
  | .set key' _ _ | .delete key' | .lpush key' _ | .rpush key' _ => key' ≠ key
  | .expire key' _ option => key' = key → ∃ opt, option = some opt ∧ opt ≠ "XX" ∧ opt ≠ "LT"
  | _ => True

namespace Living

section

variable (key : String) (value : RedisObject) (deadline : Instant)

/-- The key has the value, and a deadline that is not before this one. -/
structure Holds (db : DB) : Prop where
  stored : db.data.lookup key = some value
  due : ∃ due, deadline ≤ due ∧ db.expirations.lookup key = some due

/-- All tasks leave the key alone and rely on it. -/
def setting : Setting DB Env Call Call.Response :=
  ⟨Call.step, fun db db' => Holds key value deadline db → Holds key value deadline db',
    fun db db' => Holds key value deadline db → Holds key value deadline db'⟩

/-- The deadline has not passed. -/
def InTime (env : Env) : Prop :=
  env.now ≤ deadline

/-- What LRANGE shows of a value. -/
def ranged (target : Target) (first last : Int32) : RedisObject → Outcome String RedisObject
  | .list list => .list <$> DB.range target first last list
  | .string _ => .error "Wrong type. Expected list."

/-- The answers of a server that has the value. -/
def Answers (target : Target) : (ask : Ask) → ask.Response → Prop
  | .execute (.get key'), reply => key' = key → reply = Dispatcher.replyGet value
  | .execute (.lrange key' first last), reply => key' = key →
      reply = Dispatcher.replyWith Dispatcher.replyLrange (ranged target first last value)
  | _, _ => True

end

variable {key : String} {value : RedisObject} {deadline : Instant} {db : DB} {α : Type}

theorem stable_holds : Stable (setting key value deadline).rely (Holds key value deadline) :=
  fun stays => stays

theorem stable_fact (fact : Prop) :
    Stable (setting key value deadline).rely fun db => Holds key value deadline db ∧ fact :=
  fun stays holds => ⟨stays holds.1, holds.2⟩

/-! ## What the tasks do -/

/-- A call that changes nothing. -/
theorem triple_reads {op : Call} {fact : op.Response → Prop}
    (reads : ∀ env db, (op.step env db).2 = db)
    (gives : ∀ env db, InTime deadline env → Holds key value deadline db →
      fact (op.step env db).1) :
    Prog.Triple (setting key value deadline) (InTime deadline) (Holds key value deadline)
      (perform op) fun answer db => Holds key value deadline db ∧ fact answer := by
  apply Prog.Triple.perform stable_holds fun answer => stable_fact (fact answer)
  intro env db inTime holds
  dsimp only [setting]
  rw [reads]
  exact ⟨id, holds, gives env db inTime holds⟩

theorem triple_looks {op : Call} (reads : ∀ env db, (op.step env db).2 = db) :
    Prog.Triple (setting key value deadline) (InTime deadline) (Holds key value deadline)
      (perform op) fun _ => Holds key value deadline := by
  have looks := @triple_reads key value deadline op (fun _ => True) reads fun _ _ _ _ => trivial
  exact looks.weaken stable_holds (fun _ => id) fun _ _ => And.left

/-- Calls on other keys. -/
theorem triple_others {prog : DbProg α}
    (others : prog.Calls fun op => ∃ key', key' ≠ key ∧ op.On key') :
    Prog.Triple (setting key value deadline) (InTime deadline) (Holds key value deadline) prog
      fun _ => Holds key value deadline := by
  refine (Prog.Triple.of_calls stable_holds ?_ others).weaken stable_holds (fun _ => id)
    fun _ _ => And.left
  rintro env op db ⟨key', other, on⟩ holds
  have same := on.entry_step other.symm env db
  have kept : Holds key value deadline (op.step env db).2 :=
    ⟨(congrArg Entry.value same).trans holds.stored,
      holds.due.imp fun _ due => ⟨due.1, (congrArg Entry.deadline same).trans due.2⟩⟩
  exact ⟨fun _ => kept, kept⟩

theorem triple_lazyExpiration :
    Prog.Triple (setting key value deadline) (InTime deadline) (Holds key value deadline)
      (DB.lazyExpiration key) fun expired db => Holds key value deadline db ∧ expired = false := by
  apply (triple_looks fun _ _ => rfl).bind
  rintro (_ | due)
  · exact .ret stable_holds fun db holds => ⟨holds, rfl⟩
  · have check : Prog.Triple (setting key value deadline) (InTime deadline)
        (Holds key value deadline) (perform (.isExpired key))
        fun expired db => Holds key value deadline db ∧ expired = false := by
      apply triple_reads fun _ _ => rfl
      rintro env db inTime ⟨-, due, later, given⟩
      change (db.expirations.lookup key).any (· < env.now) = false
      rw [given]
      exact decide_eq_false (not_lt.mpr (inTime.trans later))
    apply check.bind
    rintro (_ | _)
    · exact .ret (stable_fact _) fun _ => id
    · exact .of_false fun db holds => Bool.noConfusion holds.2

theorem triple_dataGet :
    Prog.Triple (setting key value deadline) (InTime deadline) (Holds key value deadline)
      (perform (.dataGet key))
      fun answer db => Holds key value deadline db ∧ answer = some value :=
  triple_reads (fun _ _ => rfl) fun _ _ _ holds => holds.stored

/-- A reader that finds the key unexpired comes to look at its value. -/
theorem triple_reader {rest : Bool → DbProg α} {shows : Option RedisObject → DbProg α} {result : α}
    (looks : rest false = perform (.dataGet key) >>= shows)
    (shown : shows (some value) = return result) :
    Prog.Triple (setting key value deadline) (InTime deadline) (Holds key value deadline)
      (DB.lazyExpiration key >>= rest)
      fun answer db => Holds key value deadline db ∧ answer = result := by
  apply triple_lazyExpiration.bind
  rintro (_ | _)
  · rw [looks]
    apply (triple_dataGet.given _).bind
    intro answer
    by_cases same : answer = some value
    · rw [same, shown]
      exact .ret (stable_fact _) fun db holds => ⟨holds.1, rfl⟩
    · exact .of_false fun db holds => same holds.2
  · exact .of_false fun db holds => Bool.noConfusion holds.2

theorem triple_get :
    Prog.Triple (setting key value deadline) (InTime deadline) (Holds key value deadline)
      (DB.get key) fun result db => Holds key value deadline db ∧ result = .ok value :=
  triple_reader rfl rfl

theorem triple_lrange (target : Target) (first last : Int32) :
    Prog.Triple (setting key value deadline) (InTime deadline) (Holds key value deadline)
      (DB.lrange target key first last)
      fun result db => Holds key value deadline db ∧ result = ranged target first last value := by
  apply triple_reader rfl
  cases value <;> rfl

/-- EXPIRE gives no earlier deadline. -/
theorem triple_updateExpiry {opt : String} (noXX : opt ≠ "XX") (noLT : opt ≠ "LT")
    (due : Instant) :
    Prog.Triple (setting key value deadline) (InTime deadline) (Holds key value deadline)
      (DB.updateExpiry key due (some opt))
      fun update db => Holds key value deadline db ∧ (update = some true → deadline ≤ due) := by
  simp only [DB.updateExpiry, if_neg noXX, if_neg noLT]
  split_ifs
  · have present : Prog.Triple (setting key value deadline) (InTime deadline)
        (Holds key value deadline) (perform (.expirationsContainsKey key))
        fun answer db => Holds key value deadline db ∧ answer = true := by
      apply triple_reads fun _ _ => rfl
      rintro env db _ ⟨-, due, -, given⟩
      change (db.expirations.lookup key).isSome = true
      rw [given]
      rfl
    apply present.bind
    rintro (_ | _)
    · exact .of_false fun db holds => Bool.noConfusion holds.2
    · apply Prog.Triple.ret (stable_fact _)
      rintro db holds
      exact ⟨holds.1, fun updates => by cases updates⟩
  · have later : Prog.Triple (setting key value deadline) (InTime deadline)
        (Holds key value deadline) (perform (.expirationsGet key))
        fun answer db => Holds key value deadline db ∧
          (answer.any (· < due) = true → deadline ≤ due) := by
      apply triple_reads fun _ _ => rfl
      rintro env db _ ⟨-, current, notBefore, given⟩ sooner
      have less : (db.expirations.lookup key).any (· < due) = true := sooner
      rw [given] at less
      exact notBefore.trans (of_decide_eq_true less).le
    apply later.bind
    intro answer
    apply Prog.Triple.ret (stable_fact _)
    exact fun db holds => ⟨holds.1, fun updates => holds.2 (Option.some.inj updates)⟩
  · apply Prog.Triple.ret stable_holds
    exact fun db holds => ⟨holds, fun updates => by cases updates⟩

theorem triple_expire {opt : String} (noXX : opt ≠ "XX") (noLT : opt ≠ "LT") (due : Instant) :
    Prog.Triple (setting key value deadline) (InTime deadline) (Holds key value deadline)
      (DB.expire key due (some opt)) fun _ => Holds key value deadline := by
  apply (triple_looks fun _ _ => rfl).bind
  rintro (_ | _)
  · exact .ret stable_holds fun _ => id
  · apply (triple_updateExpiry noXX noLT due).bind
    rintro (_ | _ | _)
    · exact .ret (stable_fact _) fun _ => And.left
    · exact .ret (stable_fact _) fun _ => And.left
    · have insert : Prog.Triple (setting key value deadline) (InTime deadline)
          (fun db => Holds key value deadline db ∧ (some true = some true → deadline ≤ due))
          (perform (.expirationsInsert key due)) fun _ => Holds key value deadline := by
        apply Prog.Triple.perform (stable_fact _) fun _ => stable_holds
        intro env db _ holds
        have kept : Holds key value deadline { db with
            expirations := db.expirations.insert key due } :=
          ⟨holds.1.stored, due, holds.2 rfl, Finmap.lookup_insert _⟩
        exact ⟨fun _ => kept, kept⟩
      exact insert.bind fun _ => .ret stable_holds fun _ => id

/-- A cleanup that read the clock before the deadline does not remove the key. -/
theorem triple_reapSample {now : Instant} (inTime : now ≤ deadline) (sample : List String)
    (expired : ℕ) :
    Prog.Triple (setting key value deadline) (InTime deadline) (Holds key value deadline)
      (DB.reapSample now sample expired) fun _ => Holds key value deadline := by
  induction sample generalizing expired with
  | nil => exact .ret stable_holds fun _ => id
  | cons key' rest ih =>
      have looks : Prog.Triple (setting key value deadline) (InTime deadline)
          (Holds key value deadline) (perform (.expirationsGet key'))
          fun answer db => Holds key value deadline db ∧
            (key' = key → ∀ due, answer = some due → deadline ≤ due) := by
        apply triple_reads fun _ _ => rfl
        rintro env db _ ⟨-, due, later, given⟩ rfl due' given'
        cases given.symm.trans given'
        exact later
      apply looks.bind
      rintro (_ | due)
      · exact (ih expired).given _
      · dsimp only
        split
        next past =>
          by_cases own : key' = key
          · apply Prog.Triple.of_false
            intro db holds
            have later := holds.2 own due rfl
            exact absurd past (not_lt.mpr (inTime.trans later))
          · have removes : Prog.Triple (setting key value deadline) (InTime deadline)
                (Holds key value deadline)
                (do perform (.dataRemove key'); perform (.expirationsRemove key'))
                fun _ => Holds key value deadline :=
              triple_others ⟨⟨key', own, rfl⟩, fun _ => ⟨⟨key', own, rfl⟩, fun _ => trivial⟩⟩
            apply (removes.given _).bind
            exact fun _ => ih (expired + 1)
        next => exact (ih expired).given _

theorem triple_activeExpirationCycle (passes : ℕ) :
    Prog.Triple (setting key value deadline) (InTime deadline) (Holds key value deadline)
      (DB.activeExpirationCycle passes) fun _ => Holds key value deadline := by
  have clock : Prog.Triple (setting key value deadline) (InTime deadline)
      (Holds key value deadline) (perform .now)
      fun now db => Holds key value deadline db ∧ now ≤ deadline :=
    triple_reads (fun _ _ => rfl) fun _ _ inTime _ => inTime
  have pass : Prog.Triple (setting key value deadline) (InTime deadline)
      (Holds key value deadline) DB.activeExpirationPass fun _ => Holds key value deadline := by
    apply clock.bind
    intro now
    by_cases inTime : now ≤ deadline
    · apply ((triple_looks fun _ _ => rfl).given _).bind
      intro total
      dsimp only
      split
      · exact .ret stable_holds fun _ => id
      · apply (triple_looks fun _ _ => rfl).bind
        intro skip
        apply (triple_looks fun _ _ => rfl).bind
        intro order
        apply (triple_reapSample inTime _ 0).bind
        exact fun _ => .ret stable_holds fun _ => id
    · exact .of_false fun db holds => inTime holds.2
  induction passes with
  | zero => exact .ret stable_holds fun _ => id
  | succ passes ih =>
      apply pass.bind
      rintro (_ | _)
      · exact .ret stable_holds fun _ => id
      · exact ih

/-! ## Connections -/

theorem answers_of_other {target : Target} {c : Command} (other : c.key ≠ some key)
    (outcome : Outcome String RespType) : Answers key value target (.execute c) outcome := by
  cases c with
  | get key' | lrange key' =>
      rintro rfl
      exact absurd rfl other
  | _ => trivial

theorem triple_own (target : Target) {c : Command} {prog : DbProg (Outcome String RespType)}
    (allowed : c.NeverShortens key) (own : c.key = some key)
    (found : Dispatcher.operation target c = some prog) :
    Prog.Triple (setting key value deadline) (InTime deadline) (Holds key value deadline) prog
      fun outcome db => Holds key value deadline db ∧
        Answers key value target (.execute c) outcome := by
  cases c with
  | get key' =>
      cases own
      cases found
      apply triple_get.bind
      intro result
      apply Prog.Triple.ret (stable_fact _)
      rintro db ⟨holds, rfl⟩
      exact ⟨holds, fun _ => rfl⟩
  | lrange key' first last =>
      cases own
      cases found
      apply (triple_lrange target first last).bind
      intro result
      apply Prog.Triple.ret (stable_fact _)
      rintro db ⟨holds, rfl⟩
      exact ⟨holds, fun _ => rfl⟩
  | expire key' due option =>
      cases own
      cases found
      rcases allowed rfl with ⟨opt, rfl, noXX, noLT⟩
      apply (triple_expire noXX noLT due).bind
      exact fun _ => .ret stable_holds fun db holds => ⟨holds, trivial⟩
  | set key' | delete key' | lpush key' | rpush key' =>
      cases own
      exact absurd rfl allowed
  | ping | echo | multi | discard | exec | save => cases own

theorem triple_connection (spill : Spill UInt8) (target : Target) {events : List ReadEvent}
    (modest : ∀ resp, .frame resp ∈ requests target events [] →
      Asks target (Command.NeverShortens key) resp) :
    Prog.Triple (setting key value deadline) (InTime deadline) (Holds key value deadline)
      (Task.connection spill (.maps target) events)
      fun result db => Holds key value deadline db ∧
        (Task.connection spill (.asks target) events).Returns (Answers key value target)
          result := by
  have clock : Prog.Triple (setting key value deadline) (InTime deadline)
      (Holds key value deadline) (perform .now)
      fun now db => Holds key value deadline db ∧ Answers key value target .clock now :=
    triple_reads (fun _ _ => rfl) fun _ _ _ _ => trivial
  have anyTime : ∀ now, Answers key value target .clock now → True := fun _ _ => trivial
  exact Task.triple_handle (fun _ => rfl) stable_holds anyTime
    (Ask.triple_answeredBy clock (fun _ _ => triple_own target) (fun _ => triple_others)
      fun _ outcome other => answers_of_other other outcome)
    (fun resp member => (modest resp member).asksAt) (Client.queues_new _)

end Living

/-- A key has a value and a deadline, and no connection writes to it or shortens its
life.  Under every interleaving of connections and cleanup cycles that ends before the
deadline the key keeps its value, and every connection is served as by a server on which
it has this value: neither readers nor cleanups remove it before its time. -/
theorem unexpired_value_always_served (spill : Spill UInt8) (target : Target) {key : String}
    {value : RedisObject} {deadline : Instant} {db : DB}
    (holds : Living.Holds key value deadline db)
    {workers : List Worker}
    (modest : ∀ events, .connection events ∈ workers →
      ∀ resp, .frame resp ∈ requests target events [] →
        Asks target (Command.NeverShortens key) resp)
    {schedule : List (ℕ × Env)} (inTime : ∀ turn ∈ schedule, turn.2.now ≤ deadline) :
    let final := Pool.run Call.step ⟨db, workers.map (Worker.prog spill target)⟩ schedule
    Living.Holds key value deadline final.shared ∧
    ∀ (i : ℕ) (events : List ReadEvent) (exit : Exit) (conn : Connection Client),
      workers[i]? = some (.connection events) →
      final.threads[i]? = some (.ret (some (exit, conn))) →
      (Task.connection spill (.asks target) events).Returns (Living.Answers key value target)
          (exit, conn) ∧
      ∃ (answered rest : List Incoming) (replies : List RespType),
        requests target events [] = answered ++ rest ∧ replies.length = answered.length ∧
        conn.writer.written = replies.flatMap RespType.toBytes ∧
        ∀ (n : ℕ) (resp reply : RespType),
          answered[n]? = some (.frame resp) → replies[n]? = some reply →
          Asks target (· = .get key) resp →
          reply = .simpleString "QUEUED" ∨ (∃ e, reply = .simpleError e) ∨
            answer (Dispatcher.replyGet value) = some reply := by
  intro final
  let pool : Pool DB Call Call.Response (Option (Exit × Connection Client)) :=
    ⟨db, workers.map (Worker.prog spill target)⟩
  let setting := Living.setting key value deadline
  have initially : pool.Agrees setting (fun _ => Living.InTime deadline) fun i result _ =>
      ∀ events, workers[i]? = some (.connection events) → ∀ exit conn,
        result = some (exit, conn) → (Task.connection spill (.asks target) events).Returns
          (Living.Answers key value target) (exit, conn) := by
    intro i thread found
    rw [List.getElem?_map, Option.map_eq_some_iff] at found
    rcases found with ⟨worker, listed, rfl⟩
    refine ⟨_, holds, ?_⟩
    cases worker with
    | cleanup passes =>
        apply (Living.triple_activeExpirationCycle passes).bind
        intro _
        apply Prog.Triple.ret Living.stable_holds
        rintro db - events listed'
        cases listed.symm.trans listed'
    | connection events =>
        apply (Living.triple_connection spill target
          (modest events (List.mem_of_getElem? listed))).bind
        intro result
        apply Prog.Triple.ret (Living.stable_fact _)
        rintro db ⟨-, returns⟩ events' listed' exit conn ⟨⟩
        cases listed.symm.trans listed'
        exact returns
  have kept : Living.Holds key value deadline final.shared :=
    initially.run_shared id Living.stable_holds holds inTime
  refine ⟨kept, ?_⟩
  intro i events exit conn listed ended
  have ending : final.Agrees setting _ _ := initially.run id inTime
  have returns := ending.returned ended events listed exit conn rfl
  obtain ⟨answered, rest, replies, client, finished⟩ := Task.finished_handle returns
  refine ⟨returns, answered, rest, replies, finished.requests, finished.answers.length_eq,
    finished.written, ?_⟩
  intro n resp reply asked replied asks
  rcases finished.answers.served_at asked replied with ⟨client, outcome, next, served, given⟩
  rcases Task.returns_serve_asks id served asks with ⟨e, rfl⟩ | rfl | rfl | answers
  · cases given
    exact Or.inr (Or.inl ⟨e, rfl⟩)
  · cases given
  · cases given
    exact Or.inl rfl
  · rw [answers rfl] at given
    exact Or.inr (Or.inr given)

/-- A client reads a key that a cleanup has just looked at. -/
theorem unexpired_value_always_served_get :
    let db : DB := ⟨FiniteMap.ofList [("k", .string "v")], FiniteMap.ofList [("k", 5)]⟩
    let get := ReadEvent.bytes (utf8Bytes "GET k\r\n")
    let workers := [Worker.connection [get], .cleanup 1]
    let schedule := [1, 0, 1, 1, 1, 0, 1, 0, 0].map fun i => (i, (⟨5, ["k"], 0⟩ : Env))
    let final := Pool.run Call.step ⟨db, workers.map (Worker.prog .atFlush ⟨true, 24⟩)⟩ schedule
    final.threads[0]?.bind Worker.output = some (utf8Bytes "$1\r\nv\r\n") ∧
      Living.Holds "k" (.string "v") 5 final.shared ∧
      ∃ replies : List RespType, utf8Bytes "$1\r\nv\r\n" = replies.flatMap RespType.toBytes ∧
        ∀ text, replies = [.bulkString text] → text = "v" := by
  intro db get workers schedule final
  have sends : final.threads[0]?.bind Worker.output = some (utf8Bytes "$1\r\nv\r\n") := by
    decide +kernel
  rcases Worker.ended_of_output sends with ⟨exit, conn, ended, written⟩
  let resp : RespType := .array [.bulkString "GET", .bulkString "k"]
  have frames : ∀ resp', .frame resp' ∈ requests ⟨true, 24⟩ [get] [] →
      Asks ⟨true, 24⟩ (· = .get "k") resp' := by
    rintro resp' member now c extracted
    cases List.mem_singleton.mp member
    cases extracted
    rfl
  have modest : ∀ events, .connection events ∈ workers →
      ∀ resp', .frame resp' ∈ requests ⟨true, 24⟩ events [] →
        Asks ⟨true, 24⟩ (Command.NeverShortens "k") resp' := by
    intro events listed resp' member now c extracted
    rcases List.mem_pair.mp listed with same | same
    · cases same
      rw [frames resp' member now c extracted]
      trivial
    · cases same
  have holds : Living.Holds "k" (.string "v") 5 db := ⟨rfl, 5, le_rfl, rfl⟩
  have inTime : ∀ turn ∈ schedule, turn.2.now ≤ 5 := by
    decide +kernel
  obtain ⟨kept, served⟩ := unexpired_value_always_served .atFlush ⟨true, 24⟩ holds modest inTime
  obtain ⟨-, answered, rest, replies, found, length, sent, shows⟩ :=
    served 0 [get] exit conn rfl ended
  refine ⟨sends, kept, replies, written ▸ sent, ?_⟩
  rintro text rfl
  have asked : answered[0]? = some (.frame resp) := by
    rcases answered with _ | ⟨first, others⟩
    · cases length
    · cases (List.cons.inj found).1
      rfl
  have asks := frames resp (List.mem_singleton.mpr rfl)
  rcases shows 0 resp (.bulkString text) asked rfl asks with shown | ⟨e, shown⟩ | shown
  · cases shown
  · cases shown
  · exact (RespType.bulkString.inj (Option.some.inj shown)).symm

end Ember
