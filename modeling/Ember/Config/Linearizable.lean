import Ember.Config.Services
import Ember.Config.Tenants

/-!
# Keys without deadlines

The operations on a key take several map calls because of its deadline.  On keys that
never get one they might as well be atomic: SET, GET, DELETE and LRANGE on any value, and
pushes to a list that is always there.  (A push to a key without a value takes two calls
even so, and can lose what another client stores between them.)  Under every interleaving,
and whatever is done to other keys meanwhile, the server goes abreast of one that executes
each command on these keys at once, at some moment between its first call and its last.
-/

namespace Ember

open Ember.Base Ember.Database Ember.Resp

/-! ## Commands that are executed at once -/

/-- What a task does at once: it executes a command, or makes one map call. -/
inductive Action where
  | command (c : Command)
  | call (op : Call)

namespace Action

/-- What is answered to an action. -/
abbrev Response : Action → Type
  | command _ => Outcome String RespType
  | call op => op.Response

/-- A command is executed as by a client that is alone. -/
def step (target : Target) (env : Env) : (act : Action) → DB → act.Response × DB
  | command c, db => Dispatcher.effect target env.now db c
  | call op, db => op.step env db

/-- The map calls of an action. -/
def calls (target : Target) : (act : Action) → DbProg act.Response
  | command c => (Dispatcher.operation target c).getD (return .panic)
  | call op => perform op

/-- A map call as an action. -/
def ofCall (op : Call) : Prog Action Response op.Response :=
  Prog.perform (Action.call op)

end Action

/-- The commands on certain keys are executed at once, other commands by map calls. -/
def Service.atomic (target : Target) (keys : Finset String) : Service Action Action.Response where
  target := target
  now := Action.ofCall .now
  operation c := (Dispatcher.operation target c).map fun prog =>
    if c.key.any (· ∈ keys) then Prog.perform (Action.command c) else prog.expand Action.ofCall

/-- A task that executes commands on certain keys at once. -/
def Worker.atomic (spill : Spill UInt8) (target : Target) (keys : Finset String) :
    Worker → Prog Action Action.Response (Option (Exit × Connection Client))
  | .connection events => do return some (← Task.connection spill (.atomic target keys) events)
  | .cleanup passes => (Worker.prog spill target (.cleanup passes)).expand Action.ofCall

theorem expands_atomic (target : Target) (keys : Finset String) :
    (Service.atomic target keys).Expands (Action.calls target) (.maps target) where
  target := rfl
  now := rfl
  operation := by
    intro c
    change Option.map _ (Option.map _ _) = Dispatcher.operation target c
    cases found : Dispatcher.operation target c with
    | none => rfl
    | some prog =>
        rw [Option.map_some, Option.map_some]
        split
        · rw [Prog.expand_perform, Action.calls, found, Option.getD_some]
        · rw [Prog.expand_expand _ fun _ => rfl]

theorem Worker.expand_atomic (spill : Spill UInt8) (target : Target) (keys : Finset String)
    (worker : Worker) :
    (worker.atomic spill target keys).expand (Action.calls target) = worker.prog spill target := by
  cases worker with
  | connection events =>
      rw [Worker.atomic, Prog.expand_bind]
      exact congrArg (· >>= _) (Task.expand_handle (expands_atomic target keys) events _)
  | cleanup passes => exact Prog.expand_expand _ (fun _ => rfl) _

/-! ## Keys without deadlines -/

/-- None of the keys has a deadline, and some of them hold a list. -/
structure Untimed (keys lists : Finset String) (db : DB) : Prop where
  noDeadline : ∀ key ∈ keys, db.expirations.lookup key = none
  list : ∀ key ∈ lists, ∃ items, db.data.lookup key = some (.list items)

/-- A command that gives none of the keys a deadline.  The lists among the values of the
keys stay where they are, and pushes go to no other key of them. -/
def Command.Untimed (keys lists : Finset String) : Command → Prop
  | .set key _ expiresAt => key ∈ keys → expiresAt = none ∧ key ∉ lists
  | .delete key => key ∈ keys → key ∉ lists
  | .lpush key _ | .rpush key _ => key ∈ keys → key ∈ lists
  | .expire key _ _ => key ∉ keys
  | _ => True

namespace Untimed

variable {target : Target} {keys lists : Finset String} {db : DB} {key : String}

theorem expired_eq_false (untimed : Untimed keys lists db) (member : key ∈ keys) (now : Instant) :
    db.expired now key = false := by
  rw [DB.expired, untimed.noDeadline key member]
  rfl

theorem visible_eq (untimed : Untimed keys lists db) (member : key ∈ keys) (now : Instant) :
    db.visible now key = db.data.lookup key := by
  rw [DB.visible, untimed.expired_eq_false member, if_neg Bool.false_ne_true]

theorem settle_eq (untimed : Untimed keys lists db) (member : key ∈ keys) (now : Instant) :
    db.settle now key = db := by
  rw [DB.settle, untimed.expired_eq_false member, if_neg Bool.false_ne_true]

theorem erase_eq (untimed : Untimed keys lists db) (member : key ∈ keys) :
    db.expirations.erase key = db.expirations :=
  FiniteMap.erase_eq_self (untimed.noDeadline key member)

/-- A value is stored or removed, and no list is. -/
theorem put (untimed : Untimed keys lists db) (other : key ∉ lists) (value : Option RedisObject) :
    Untimed keys lists { db with data := db.data.put key value } where
  noDeadline := untimed.noDeadline
  list := by
    intro key' member
    rw [FiniteMap.lookup_put_if, if_neg (ne_of_mem_of_not_mem member other)]
    exact untimed.list key' member

/-- A list is stored. -/
theorem putList (untimed : Untimed keys lists db) (items : List RedisObject) :
    Untimed keys lists { db with data := db.data.insert key (.list items) } where
  noDeadline := untimed.noDeadline
  list := by
    intro key' member
    rw [FiniteMap.lookup_insert_if]
    split
    · exact ⟨items, rfl⟩
    · exact untimed.list key' member

/-- The program does what the command does at once. -/
abbrev Executes (target : Target) (keys lists : Finset String) (c : Command)
    (prog : DbProg (Outcome String RespType)) : Prop :=
  prog.Implements Call.step (Action.step target) (Untimed keys lists)
    (Prog.perform (Action.command c))

section Executes

variable {c : Command}

/-- Readers find no deadline. -/
theorem executes_expirationsGet (member : key ∈ keys)
    {next : Option Instant → DbProg (Outcome String RespType)}
    (rest : Executes target keys lists c (next none)) :
    Executes target keys lists c (.call (.expirationsGet key) next) := by
  refine Prog.Implements.silent (fun _ _ _ => rfl) fun env db untimed => ?_
  have missing : (Call.step env (.expirationsGet key) db).1 = none :=
    untimed.noDeadline key member
  rw [missing]
  exact rest

theorem executes_dataGet {next : Option RedisObject → DbProg (Outcome String RespType)}
    (answer : Option RedisObject → Outcome String RespType)
    (executed : ∀ {now db}, Untimed keys lists db →
      Dispatcher.effect target now db c = (answer (db.data.lookup key), db))
    (returns : ∀ value, next value = .ret (answer value)) :
    Executes target keys lists c (.call (.dataGet key) next) := by
  refine Prog.Implements.point ?_ (fun _ _ untimed => untimed) ?_
  · intro env db untimed
    rw [Action.step, executed untimed]
    rfl
  · intro env db untimed
    rw [Action.step, executed untimed, returns]
    exact .ret _

theorem executes_get (member : key ∈ keys) :
    Executes target keys lists (.get key) (do
      return Dispatcher.replyWith Dispatcher.replyGet (← DB.get key)) := by
  apply executes_expirationsGet member
  apply executes_dataGet fun value => Dispatcher.replyWith Dispatcher.replyGet (DB.getReply value)
  · intro now db untimed
    rw [Dispatcher.effect_get, untimed.visible_eq member, untimed.settle_eq member]
  · rintro (_ | value) <;> rfl

theorem executes_lrange (member : key ∈ keys) (start stop : Int32) :
    Executes target keys lists (.lrange key start stop) (do
      return Dispatcher.replyWith Dispatcher.replyLrange (← DB.lrange target key start stop)) := by
  apply executes_expirationsGet member
  apply executes_dataGet fun value =>
    Dispatcher.replyWith Dispatcher.replyLrange (DB.lrangeReply target start stop value)
  · intro now db untimed
    rw [Dispatcher.effect_lrange, untimed.visible_eq member, untimed.settle_eq member]
  · rintro (_ | (_ | _)) <;> rfl

/-- There is no deadline to remove. -/
theorem quiet_expirationsRemove (member : key ∈ keys) (env : Env) (db : DB)
    (untimed : Untimed keys lists db) : (Call.step env (.expirationsRemove key) db).2 = db := by
  rw [Call.step, untimed.erase_eq member]

theorem executes_set (member : key ∈ keys) (other : key ∉ lists) (value : String) :
    Executes target keys lists (.set key value none) (do
      return Dispatcher.replyWith Dispatcher.simpleOk (← DB.set key (.string value) none)) := by
  refine Prog.Implements.silent (quiet_expirationsRemove member) fun _ _ _ =>
    .point ?_ ?_ fun _ _ _ => .ret _
  · intro env db untimed
    rw [Action.step, Dispatcher.effect_set, DB.bindKey, untimed.erase_eq member]
    rfl
  · exact fun env db untimed => untimed.put other (some (.string value))

theorem executes_delete (member : key ∈ keys) (other : key ∉ lists) :
    Executes target keys lists (.delete key) (do
      return Dispatcher.replyWith (fun _ => .ok (.bulkString "Ok")) (← DB.delete key)) := by
  refine Prog.Implements.point ?_ (fun _ _ untimed => untimed.put other none) fun _ _ _ =>
    .silent (quiet_expirationsRemove member) fun _ _ _ => .ret _
  intro env db untimed
  change _ = (⟨db.data.erase key, db.expirations.erase key⟩ : DB)
  rw [untimed.erase_eq member]
  rfl

/-- A push finds a list, which it updates while it holds the entry. -/
theorem executes_push (member : key ∈ lists) {fresh : List RedisObject}
    {update : List RedisObject → List RedisObject}
    (executed : ∀ {now db}, Dispatcher.effect target now db c =
      (Dispatcher.replyWith Dispatcher.simpleOk (DB.exec now (DB.push key fresh update) db).1,
        (DB.exec now (DB.push key fresh update) db).2)) :
    Executes target keys lists c (do
      return Dispatcher.replyWith Dispatcher.simpleOk (← DB.push key fresh update)) := by
  have pushed : ∀ (env : Env) {db : DB}, Untimed keys lists db → ∃ items,
      Call.step env (.dataGetMut key (DB.extendList update)) db =
        (some (.ok ()), { db with data := db.data.insert key (.list (update items)) }) ∧
      DB.exec env.now (DB.push key fresh update) db =
        (.ok (), { db with data := db.data.insert key (.list (update items)) }) := by
    intro env db untimed
    rcases untimed.list key member with ⟨items, found⟩
    refine ⟨items, ?_, ?_⟩
    · rw [Call.step, found]
      rfl
    · rw [DB.exec_push, found]
      rfl
  refine Prog.Implements.point ?_ ?_ ?_
  · intro env db untimed
    rcases pushed env untimed with ⟨items, call, exec⟩
    rw [Action.step, executed, exec, call]
  · intro env db untimed
    rcases pushed env untimed with ⟨items, call, -⟩
    rw [call]
    exact untimed.putList _
  · intro env db untimed
    rcases pushed env untimed with ⟨items, call, exec⟩
    rw [Action.step, executed, exec, call]
    exact .ret _

end Executes

/-- The operations of the commands on the keys. -/
theorem executes_operation {c : Command} (named : c.key = some key) (member : key ∈ keys)
    (untimed : c.Untimed keys lists) :
    Executes target keys lists c (Action.calls target (.command c)) := by
  cases c with
  | ping | echo | multi | discard | exec | save => cases named
  | set key value expiresAt =>
      cases named
      rcases untimed member with ⟨rfl, other⟩
      exact executes_set member other value
  | get key =>
      cases named
      exact executes_get member
  | delete key =>
      cases named
      exact executes_delete member (untimed member)
  | lpush key values =>
      cases named
      exact executes_push (untimed member) (Dispatcher.effect_lpush target _ _ key values)
  | rpush key values =>
      cases named
      exact executes_push (untimed member) (Dispatcher.effect_rpush target _ _ key values)
  | lrange key start stop =>
      cases named
      exact executes_lrange member start stop
  | expire key expiresAt option =>
      cases named
      exact absurd member untimed

/-- Calls on other keys leave the keys alone. -/
theorem call (untimed : Untimed keys lists db) (listed : lists ⊆ keys) (op : Call)
    (within : op.Within (↑keys : Set String)ᶜ) (env : Env) :
    Untimed keys lists (op.step env db).2 := by
  have same : DB.AgreeOn ↑keys (op.step env db).2 db :=
    unwinding_calls.respects env disjoint_compl_right within fun _ _ => rfl
  constructor
  · intro key member
    rw [← untimed.noDeadline key member]
    exact congrArg Entry.deadline (same key member)
  · intro key member
    rcases untimed.list key member with ⟨items, found⟩
    refine ⟨items, ?_⟩
    rw [← found]
    exact congrArg Entry.value (same key (listed member))

/-- What tasks do at once: commands on the keys, and calls that leave the keys without
deadlines and the lists in place. -/
def Allowed (keys lists : Finset String) : Action → Prop
  | .command c => (∃ key ∈ keys, c.key = some key) ∧ c.Untimed keys lists
  | .call op => ∀ env db, Untimed keys lists db → Untimed keys lists (op.step env db).2

theorem implements_allowed (act : Action) (allowed : Allowed keys lists act) :
    (act.calls target).Implements Call.step (Action.step target) (Untimed keys lists)
      (Prog.perform act) := by
  cases act with
  | command c =>
      rcases allowed with ⟨⟨key, member, named⟩, untimed⟩
      exact executes_operation named member untimed
  | call op =>
      exact .point (fun _ _ _ => rfl) allowed fun _ _ _ => .ret _

theorem covers_allowed (target : Target) (listed : lists ⊆ keys) :
    Covers (.atomic target keys) (Command.Untimed keys lists) (Allowed keys lists) where
  clock := ⟨fun _ _ untimed => untimed, fun _ => trivial⟩
  operation := by
    intro c prog untimed found
    rcases Option.map_eq_some_iff.mp found with ⟨calls, operation, rfl⟩
    split
    next on =>
      rcases (Option.any_eq_true _ _).mp on with ⟨key, named, member⟩
      exact ⟨⟨⟨key, of_decide_eq_true member, named⟩, untimed⟩, fun _ => trivial⟩
    next off =>
      refine Prog.Calls.expand (fun op within => ?_) (Isolation.calls_operation operation)
      rcases within with ⟨key, named, on⟩
      have other : key ∉ keys := by
        intro member
        exact off ((Option.any_eq_true _ _).mpr ⟨key, named, decide_eq_true member⟩)
      exact ⟨fun env _ untimed => untimed.call listed op (on.within other) env, fun _ => trivial⟩

/-! ### The cleanup cycle -/

/-- As long as the keys have no deadlines, the program makes only calls that are allowed. -/
abbrev Unfolds {α : Type} (target : Target) (keys lists : Finset String) (prog : DbProg α) : Prop :=
  (prog.expand Action.ofCall).CallsGiven
    (Pool.Possible (Action.step target) (Untimed keys lists)) (Allowed keys lists)

theorem unfolds_call {α : Type} {op : Call} {next : op.Response → DbProg α}
    (keeps : ∀ env db, Untimed keys lists db → Untimed keys lists (op.step env db).2)
    (later : ∀ answer, Pool.Possible Call.step (Untimed keys lists) op answer →
      Unfolds target keys lists (next answer)) :
    Unfolds target keys lists (.call op next) :=
  ⟨keeps, later⟩

theorem unfolds_bind {α β : Type} {prog : DbProg α} {f : α → DbProg β}
    (first : Unfolds target keys lists prog)
    (second : ∀ value, Unfolds target keys lists (f value)) :
    Unfolds target keys lists (prog >>= f) := by
  rw [Unfolds, Prog.expand_bind]
  exact first.bind fun value _ => second value

/-- The cycle removes only what has a deadline. -/
theorem unfolds_reapSample (listed : lists ⊆ keys) (now : Instant) (sample : List String)
    (expired : ℕ) : Unfolds target keys lists (DB.reapSample now sample expired) := by
  induction sample generalizing expired with
  | nil => exact trivial
  | cons key rest ih =>
      refine unfolds_call (fun _ _ untimed => untimed) ?_
      rintro (_ | deadline) ⟨env, db, untimed, given⟩
      · exact ih expired
      · have other : key ∉ keys := by
          intro member
          cases given.symm.trans (untimed.noDeadline key member)
        change Unfolds target keys lists (if deadline < now then _ else _)
        split
        · refine unfolds_call (fun env _ untimed => untimed.call listed (.dataRemove key) other env)
            fun _ _ => ?_
          exact unfolds_call
            (fun env _ untimed => untimed.call listed (.expirationsRemove key) other env)
            fun _ _ => ih (expired + 1)
        · exact ih expired

theorem unfolds_activeExpirationPass (listed : lists ⊆ keys) :
    Unfolds target keys lists DB.activeExpirationPass := by
  refine unfolds_call (fun _ _ untimed => untimed) fun now _ => ?_
  refine unfolds_call (fun _ _ untimed => untimed) fun total _ => ?_
  change Unfolds target keys lists (if total = 0 then _ else _)
  split
  · exact trivial
  · refine unfolds_call (fun _ _ untimed => untimed) fun skip _ => ?_
    refine unfolds_call (fun _ _ untimed => untimed) fun order _ => ?_
    change Unfolds target keys lists (DB.reapSample now _ 0 >>= _)
    exact unfolds_bind (unfolds_reapSample listed ..) fun expired => trivial

theorem unfolds_activeExpirationCycle (listed : lists ⊆ keys) (passes : ℕ) :
    Unfolds target keys lists (DB.activeExpirationCycle passes) := by
  induction passes with
  | zero => exact trivial
  | succ passes ih =>
      apply unfolds_bind (unfolds_activeExpirationPass listed)
      rintro (_ | _)
      · exact trivial
      · exact ih

theorem callsGiven_worker (spill : Spill UInt8) (listed : lists ⊆ keys) {worker : Worker}
    (asked : ∀ events, worker = .connection events → ∀ resp,
      .frame resp ∈ requests target events [] → Asks target (Command.Untimed keys lists) resp) :
    (worker.atomic spill target keys).CallsGiven
      (Pool.Possible (Action.step target) (Untimed keys lists)) (Allowed keys lists) := by
  cases worker with
  | connection events =>
      have calls : (Task.connection spill (.atomic target keys) events).Calls
          (Allowed keys lists) :=
        Task.calls_connection (covers_allowed target listed) (asked events rfl)
      exact calls.given.bind fun _ _ => trivial
  | cleanup passes =>
      exact unfolds_bind (unfolds_activeExpirationCycle listed passes) fun _ => trivial

end Untimed

/-- Connections and cleanup cycles among whose keys are some that never get a deadline, and
some of these always hold a list.  However the map calls are interleaved, some of the turns
can be marked such that at every moment the server is abreast of one whose tasks execute
the commands on these keys at once, in the turns that are marked: the maps are the same,
and a task has made some call of each command that is executed there, and has still to make
some call of each command that is not. -/
theorem untimed_keys_linearizable (spill : Spill UInt8) (target : Target)
    {keys lists : Finset String} (listed : lists ⊆ keys) {start : DB}
    (untimed : Untimed keys lists start) (workers : List Worker)
    (asked : ∀ events, .connection events ∈ workers → ∀ resp,
      .frame resp ∈ requests target events [] → Asks target (Command.Untimed keys lists) resp)
    (schedule : List (ℕ × Env)) :
    ∃ marked : Pool.Marked Env, marked.map Prod.fst = schedule ∧ ∀ before, before <+: marked →
      (Pool.run Call.step ⟨start, workers.map (Worker.prog spill target)⟩
        (before.map Prod.fst)).Abreast (Action.calls target)
      (Pool.run (Action.step target) ⟨start, workers.map (Worker.atomic spill target keys)⟩
        (Pool.Marked.points before)) := by
  have initially : Pool.Tracks Call.step (Action.step target) (Untimed keys lists)
      (Action.calls target) (Untimed.Allowed keys lists)
      ⟨start, workers.map (Worker.prog spill target)⟩
      ⟨start, workers.map (Worker.atomic spill target keys)⟩ := by
    refine ⟨rfl, untimed, fun {i prog} found => ?_⟩
    rw [List.getElem?_map, Option.map_eq_some_iff] at found
    rcases found with ⟨worker, there, rfl⟩
    refine ⟨worker.atomic spill target keys, by rw [List.getElem?_map, there]; rfl, ?_⟩
    rw [← Worker.expand_atomic spill target keys]
    apply Prog.Tracks.between
    apply Untimed.callsGiven_worker spill listed
    rintro events rfl
    exact asked events (List.mem_of_getElem? there)
  exact initially.run Untimed.implements_allowed schedule

/-- A client that reads a key while another one sets it. -/
theorem untimed_keys_linearizable_set_get :
    let workers := [Worker.connection [.bytes (utf8Bytes "SET k v\r\n")],
      .connection [.bytes (utf8Bytes "GET k\r\n")], .cleanup 1]
    let schedule := [0, 1, 0, 1, 2, 0, 2, 1].map fun i => (i, Env.at 0)
    let final := Pool.run Call.step
      ⟨DB.newInMemory, workers.map (Worker.prog .atFlush ⟨true, 24⟩)⟩ schedule
    final.threads[1]?.bind Worker.output = some (utf8Bytes "$1\r\nv\r\n") ∧
      ∃ marked : Pool.Marked Env, marked.map Prod.fst = schedule ∧
        let atomic := Pool.run (Action.step ⟨true, 24⟩)
          ⟨DB.newInMemory, workers.map (Worker.atomic .atFlush ⟨true, 24⟩ {"k"})⟩
          (Pool.Marked.points marked)
        final.shared = atomic.shared ∧ ∃ exit conn,
          atomic.threads[1]? = some (.ret (some (exit, conn))) ∧
            conn.writer.written = utf8Bytes "$1\r\nv\r\n" := by
  intro workers schedule final
  have sends : final.threads[1]?.bind Worker.output = some (utf8Bytes "$1\r\nv\r\n") := by
    decide +kernel
  have untimed : Untimed {"k"} ∅ DB.newInMemory := ⟨fun _ _ => rfl, by simp⟩
  have asked : ∀ events, .connection events ∈ workers → ∀ resp,
      .frame resp ∈ requests ⟨true, 24⟩ events [] →
      Asks ⟨true, 24⟩ (Command.Untimed {"k"} ∅) resp := by
    intro events listed resp member now cmd extracted
    rcases List.mem_cons.mp listed with first | listed
    · cases first
      cases List.mem_singleton.mp member
      cases extracted
      exact fun _ => ⟨rfl, Finset.notMem_empty _⟩
    · rcases List.mem_cons.mp listed with second | listed
      · cases second
        cases List.mem_singleton.mp member
        cases extracted
        trivial
      · cases List.mem_singleton.mp listed
  obtain ⟨marked, turns, abreast⟩ := untimed_keys_linearizable .atFlush ⟨true, 24⟩
    (Finset.empty_subset _) untimed workers asked schedule
  have atEnd := abreast marked List.prefix_rfl
  rw [turns] at atEnd
  rcases Worker.ended_of_output sends with ⟨exit, conn, ended, written⟩
  exact ⟨sends, marked, turns, atEnd.shared, exit, conn, atEnd.returned 1 _ ended, written⟩

end Ember
