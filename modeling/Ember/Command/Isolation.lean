import Ember.Command.Transaction
import Ember.Database.Keys

/-!
# Transactions of several clients

EXEC executes its queue one command after the other against the shared maps, and the
commands of other clients may come in between.  They can be moved out of the way, and
the transaction is isolated, as long as they touch other keys: before a point of the
EXEC other keys than those it has used, after it other keys than those it has yet to
use.  Only a key that everybody just reads, and whose deadline does not pass meanwhile,
may be shared.
-/

namespace Ember

open Ember.Base Ember.Database Ember.Resp Dispatcher

/-- A command that looks at its key and changes it only if its deadline has passed. -/
def Command.Reads : Command → Prop
  | .get _ | .lrange _ _ _ => True
  | _ => False

/-- Commands that do not work on the same key, unless both read it and it may be shared. -/
def Command.Apart (shared : Set String) (c c' : Command) : Prop :=
  ∀ key, c.key = some key → c'.key = some key → key ∈ shared ∧ c.Reads ∧ c'.Reads

/-- A command that does no more than read a key that may be shared. -/
def Command.Spares (shared : Set String) (c : Command) : Prop :=
  ∀ key ∈ shared, c.key = some key → c.Reads

namespace Isolation

/-- A connection: its transaction state, what is left of an EXEC that is under way with
the replies so far, and the answers it has given. -/
structure Party where
  client : Client
  running : Option (List Command × List RespType)
  answers : List (Outcome String RespType)

/-- The steps of a connection: a command that it dispatches, and the next queued command
of its EXEC. -/
inductive Step where
  | command (cmd : Command)
  | queued

namespace Party

/-- A connection that has not sent anything yet. -/
def new : Party :=
  ⟨Client.new, none, []⟩

/-- The end of a command.  A panic ends the connection, whose number may be given to a
new one. -/
def answer (party : Party) (client : Client) (outcome : Outcome String RespType) : Party :=
  ⟨if outcome.isPanic then Client.new else client, none, party.answers ++ [outcome]⟩

/-- EXEC before the next command of its queue, which is the end when there is none. -/
def proceed (party : Party) : List Command → List RespType → Party
  | [], replies => party.answer ⟨false, []⟩ (.ok (.array replies))
  | c :: rest, replies => { party with running := some (c :: rest, replies) }

/-- EXEC after a command of its queue. -/
def resume (party : Party) (rest : List Command) (replies : List RespType) :
    Outcome String RespType → Party
  | .ok rep => party.proceed rest (replies ++ [rep])
  | .error e => party.answer party.client (.error ("Failed to execute queued commands. E: " ++ e))
  | .panic => party.answer party.client .panic

/-- A plain command and what becomes of the connection with its reply. -/
def execute (target : Target) (party : Party) (c : Command)
    (next : Outcome String RespType → Party) : DbProg Party :=
  match operation target c with
  | some prog => do return next (← prog)
  | none => return party

/-- The map calls of one step.  A connection that is in the middle of an EXEC does not
look at further commands. -/
def prog (target : Target) (party : Party) : Step → DbProg Party
  | .command cmd =>
      if party.running.isSome then return party
      else
        match cmd with
        | .exec => return party.proceed party.client.queuedCommands []
        | .discard => return party.answer ⟨false, []⟩ (.ok (.simpleString "Ok"))
        | .multi =>
            if party.client.inTransaction then
              return party.answer party.client (.error "Can not nest multi")
            else
              return party.answer ⟨true, []⟩ (.ok (.simpleString "Ok"))
        | cmd =>
            if party.client.inTransaction then
              return party.answer { party.client with
                queuedCommands := party.client.queuedCommands ++ [cmd] }
                (.ok (.simpleString "QUEUED"))
            else
              party.execute target cmd (party.answer party.client)
  | .queued =>
      match party.running with
      | some (c :: rest, replies) => party.execute target c (party.resume rest replies)
      | _ => return party

theorem prog_command_plain {target : Target} {party : Party} (idle : party.running = none)
    {cmd : Command} (plain : ¬cmd.Controls) :
    party.prog target (.command cmd) =
      if party.client.inTransaction then
        return party.answer { party.client with
          queuedCommands := party.client.queuedCommands ++ [cmd] } (.ok (.simpleString "QUEUED"))
      else
        party.execute target cmd (party.answer party.client) := by
  simp only [prog, idle, Option.isSome_none]
  cases cmd with
  | multi | discard | exec => exact absurd trivial plain
  | _ => rfl

end Party

/-- A step of one connection at a time. -/
structure Action where
  id : ℕ
  step : Step
  now : Instant

/-- The shared maps and the connections. -/
structure Machine where
  db : DB
  parties : ℕ → Party

namespace Machine

/-- One step of one connection, with nothing in between. -/
def step (target : Target) (machine : Machine) (action : Action) : Machine :=
  let (party, db) :=
    DB.exec action.now ((machine.parties action.id).prog target action.step) machine.db
  ⟨db, Function.update machine.parties action.id party⟩

/-- A run of steps. -/
def run (target : Target) (machine : Machine) (actions : List Action) : Machine :=
  actions.foldl (step target) machine

variable {target : Target} {clock : ℕ → Instant} {machine : Machine} {id : ℕ}

@[simp]
theorem run_nil : machine.run target [] = machine :=
  rfl

@[simp]
theorem run_cons (action : Action) (rest : List Action) :
    machine.run target (action :: rest) = (machine.step target action).run target rest :=
  rfl

theorem run_append (first second : List Action) :
    machine.run target (first ++ second) = (machine.run target first).run target second :=
  List.foldl_append

theorem step_eq (target : Target) (machine : Machine) (action : Action) {party : Party} {db : DB}
    (made : DB.exec action.now ((machine.parties action.id).prog target action.step) machine.db =
      (party, db)) :
    machine.step target action = ⟨db, Function.update machine.parties action.id party⟩ := by
  rw [step, made]

/-! ## An EXEC that nobody interrupts -/

theorem exec_execute {c : Command} (plain : ¬c.Controls) (party : Party)
    (next : Outcome String RespType → Party) (now : Instant) (db : DB) :
    DB.exec now (party.execute target c next) db =
      (next (effect target now db c).1, (effect target now db c).2) := by
  unfold Party.execute effect
  cases c with
  | multi | discard | exec => exact absurd trivial plain
  | _ => exact DB.exec_bind ..

/-- A connection that has no EXEC under way has no queued command to execute. -/
theorem run_queued_of_idle (idle : (machine.parties id).running = none) (times : List Instant) :
    machine.run target (times.map fun now => ⟨id, .queued, now⟩) = machine := by
  induction times with
  | nil => rfl
  | cons now rest ih =>
      have made : DB.exec now ((machine.parties id).prog target .queued) machine.db =
          (machine.parties id, machine.db) := by
        rw [Party.prog, idle]
        rfl
      rw [List.map_cons, run_cons, step_eq target machine ⟨id, .queued, now⟩ made,
        Function.update_eq_self]
      exact ih

theorem run_queued_of_answered (db : DB) (parties : ℕ → Party) (party : Party) (client : Client)
    (outcome : Outcome String RespType) (times : List Instant) :
    run target ⟨db, Function.update parties id (party.answer client outcome)⟩
        (times.map fun now => ⟨id, .queued, now⟩) =
      ⟨db, Function.update parties id (party.answer client outcome)⟩ := by
  apply run_queued_of_idle
  simp only [Function.update_self, Party.answer]

theorem step_queued {c : Command} (plain : ¬c.Controls) {party : Party}
    (here : machine.parties id = party) {rest : List Command} {replies : List RespType}
    (running : party.running = some (c :: rest, replies)) (now : Instant) :
    machine.step target ⟨id, .queued, now⟩ =
      ⟨(effect target now machine.db c).2, Function.update machine.parties id
        (party.resume rest replies (effect target now machine.db c).1)⟩ := by
  subst here
  rw [step_eq]
  simp only [Party.prog, running]
  exact exec_execute plain ..

/-- The loop of EXEC is the steps of its queue. -/
theorem run_executeQueue {queue : List Command} (plain : ∀ c ∈ queue, ¬c.Controls) (depth : ℕ)
    (replies : List RespType) (session : Session) {party : Party}
    (client : party.client = session.client) (parties : ℕ → Party)
    {outcome : Outcome String RespType} {session' : Session}
    (executed : executeQueue (executeCommand target clock (depth + 1)) queue replies session =
      some (outcome, session')) :
    run target ⟨session.db, Function.update parties id (party.proceed queue replies)⟩
        (((List.range' session.tick queue.length).map clock).map fun now => ⟨id, .queued, now⟩) =
      ⟨session'.db, Function.update parties id (party.answer session'.client outcome)⟩ := by
  induction queue generalizing replies session party with
  | nil =>
      cases executed
      rfl
  | cons c rest ih =>
      rcases List.forall_mem_cons.mp plain with ⟨plainHead, plainRest⟩
      rw [executeQueue, executeCommand_plain target clock plainHead depth session] at executed
      let waiting := party.proceed (c :: rest) replies
      have moved : step target ⟨session.db, Function.update parties id waiting⟩
          ⟨id, .queued, clock session.tick⟩ =
          ⟨(advance target clock session c).db, Function.update parties id
            (waiting.resume rest replies (effect target (clock session.tick) session.db c).1)⟩ := by
        rw [step_queued plainHead (Function.update_self ..) rfl, Function.update_idem]
        rfl
      rw [List.length_cons, List.range'_succ, List.map_cons, List.map_cons, run_cons, moved]
      cases replied : (effect target (clock session.tick) session.db c).1 with
      | ok rep =>
          rw [replied] at executed
          exact ih plainRest (replies ++ [rep]) (advance target clock session c) client executed
      | error | panic =>
          rw [replied] at executed
          cases executed
          rw [Party.resume, run_queued_of_answered]
          exact congrArg _ (congrArg _ (congrArg (party.answer · _) client))

/-- A command that a connection dispatches, with the queued commands right behind it, is
one run of the dispatcher. -/
theorem run_dispatch (target : Target) (clock : ℕ → Instant) (depth : ℕ) (machine : Machine)
    (id : ℕ) (cmd : Command) (idle : (machine.parties id).running = none)
    (wf : (machine.parties id).client.WellFormed) {outcome : Outcome String RespType}
    {session : Session}
    (dispatched : dispatch target clock (depth + 2)
      ⟨(machine.parties id).client, machine.db, 0⟩ cmd = some (outcome, session)) :
    machine.run target (⟨id, .command cmd, clock 0⟩ ::
        ((List.range' 0 (machine.parties id).client.queuedCommands.length).map clock).map
          fun now => ⟨id, .queued, now⟩) =
      ⟨session.db, Function.update machine.parties id
        ((machine.parties id).answer session.client outcome)⟩ := by
  rw [run_cons]
  by_cases isExec : cmd = .exec
  · subst isExec
    have made : DB.exec (clock 0) ((machine.parties id).prog target (.command .exec)) machine.db =
        ((machine.parties id).proceed (machine.parties id).client.queuedCommands [],
          machine.db) := by
      rw [Party.prog, idle]
      rfl
    have executed : executeCommand target clock (depth + 2)
        ⟨(machine.parties id).client, machine.db, 0⟩ .exec = some (outcome, session) := by
      unfold dispatch at dispatched
      split at dispatched <;> exact dispatched
    rw [step_eq target machine ⟨id, .command .exec, clock 0⟩ made]
    exact run_executeQueue wf.plain depth [] _ rfl machine.parties executed
  · have made : DB.exec (clock 0) ((machine.parties id).prog target (.command cmd)) machine.db =
        ((machine.parties id).answer session.client outcome, session.db) := by
      rcases dispatch_transition target clock depth
        ⟨(machine.parties id).client, machine.db, 0⟩ wf cmd with
        ⟨outcome, session, dispatched', transition⟩
      cases dispatched.symm.trans dispatched'
      cases transition with
      | queued inside plain =>
          rw [Party.prog_command_plain idle plain, if_pos inside]
          rfl
      | nested inside =>
          simp only [Party.prog, idle, Option.isSome_none]
          rw [if_neg Bool.false_ne_true, if_pos inside]
          rfl
      | opened outside =>
          simp only [Party.prog, idle, Option.isSome_none]
          rw [if_neg Bool.false_ne_true, if_neg (Bool.eq_false_iff.mp outside)]
          rfl
      | dropped =>
          simp only [Party.prog, idle, Option.isSome_none]
          rfl
      | committed | refused => exact absurd rfl isExec
      | plain outside plain =>
          rw [Party.prog_command_plain idle plain, if_neg (Bool.eq_false_iff.mp outside)]
          exact exec_execute plain ..
    rw [step_eq target machine ⟨id, .command cmd, clock 0⟩ made, run_queued_of_answered]

end Machine

/-! ## Steps that can be exchanged -/

variable {target : Target}

theorem calls_reply {c : Command} {key : String} (known : c.key = some key) {α : Type}
    {prog : DbProg α} (calls : prog.Calls fun op => op.On key)
    (reply : α → Outcome String RespType) :
    (do return reply (← prog) : DbProg (Outcome String RespType)).Calls
      fun op => ∃ key, c.key = some key ∧ op.On key :=
  (calls.mono fun _ on => ⟨key, known, on⟩).bind fun _ => trivial

theorem calls_operation {c : Command} {prog : DbProg (Outcome String RespType)}
    (found : operation target c = some prog) :
    prog.Calls fun op => ∃ key, c.key = some key ∧ op.On key := by
  cases c with
  | ping | echo | save =>
      cases found
      exact trivial
  | multi | discard | exec => cases found
  | set key value expiresAt =>
      cases found
      exact calls_reply rfl (DB.calls_set key _ _) _
  | get key =>
      cases found
      exact calls_reply rfl (DB.calls_get key) _
  | delete key =>
      cases found
      exact calls_reply rfl (DB.calls_delete key) _
  | lpush key | rpush key =>
      cases found
      exact calls_reply rfl (DB.calls_push key _ _) _
  | lrange key =>
      cases found
      exact calls_reply rfl (DB.calls_lrange key _ _ _) _
  | expire key =>
      cases found
      exact calls_reply rfl (DB.calls_expire key _ _) _

namespace Party

/-- The command that a step executes against the maps. -/
def performs (party : Party) : Step → Option Command
  | .command cmd =>
      if party.running.isSome ∨ party.client.inTransaction ∨ cmd.Controls then none else some cmd
  | .queued =>
      match party.running with
      | some (c :: _, _) => some c
      | _ => none

theorem calls_execute (party : Party) (c : Command) (next : Outcome String RespType → Party) :
    (party.execute target c next).Calls fun op => ∃ key, c.key = some key ∧ op.On key := by
  unfold execute
  split
  next prog found => exact (calls_operation found).bind fun _ => trivial
  next => exact trivial

/-- A step executes one command against the maps, or makes no calls. -/
theorem prog_cases (party : Party) (step : Step) :
    (party.performs step = none ∧ ∃ party', party.prog target step = return party') ∨
      ∃ c next, party.performs step = some c ∧
        party.prog target step = party.execute target c next := by
  cases step with
  | command cmd =>
      cases running : party.running with
      | some queue =>
          left
          simp only [performs, prog, running, Option.isSome_some, true_or, if_true, true_and]
          exact ⟨party, rfl⟩
      | none =>
          by_cases controls : cmd.Controls
          · left
            simp only [performs, prog, running, controls, Option.isSome_none, or_true, if_true,
              true_and]
            rw [if_neg Bool.false_ne_true]
            cases cmd with
            | multi => dsimp only; split <;> exact ⟨_, rfl⟩
            | discard => exact ⟨_, rfl⟩
            | exec => exact ⟨_, rfl⟩
            | _ => exact controls.elim
          · rw [prog_command_plain running controls]
            by_cases inside : party.client.inTransaction
            · left
              rw [if_pos inside]
              exact ⟨by simp [performs, inside], _, rfl⟩
            · right
              rw [if_neg inside]
              exact ⟨cmd, _, by simp [performs, running, inside, controls], rfl⟩
  | queued =>
      rcases running : party.running with _ | ⟨_ | ⟨c, rest⟩, replies⟩
      · left
        simp only [performs, prog, running, true_and]
        exact ⟨party, rfl⟩
      · left
        simp only [performs, prog, running, true_and]
        exact ⟨party, rfl⟩
      · right
        simp only [performs, prog, running]
        exact ⟨c, _, rfl, rfl⟩

theorem calls_prog (party : Party) (step : Step) :
    (party.prog target step).Calls fun op =>
      ∃ c key, party.performs step = some c ∧ c.key = some key ∧ op.On key := by
  rcases @prog_cases target party step with ⟨-, party', same⟩ | ⟨c, next, performs, same⟩
  · rw [same]
    exact trivial
  · rw [same]
    apply (party.calls_execute c next).mono
    rintro op ⟨key, known, on⟩
    exact ⟨c, key, performs, known, on⟩

/-- The commands that an EXEC under way has yet to execute. -/
def remaining (party : Party) : List Command :=
  match party.running with
  | some (queue, _) => queue
  | none => []

theorem remaining_resume (party : Party) (rest : List Command) (replies : List RespType)
    (outcome : Outcome String RespType) :
    (party.resume rest replies outcome).remaining ⊆ rest := by
  cases outcome with
  | ok rep =>
      cases rest with
      | nil => exact List.nil_subset _
      | cons c rest => exact List.Subset.refl _
  | error e => exact List.nil_subset _
  | panic => exact List.nil_subset _

theorem remaining_queued (party : Party) (now : Instant) (db : DB) :
    (DB.exec now (party.prog target .queued) db).1.remaining ⊆ party.remaining := by
  rcases running : party.running with _ | ⟨_ | ⟨c, rest⟩, replies⟩
  · simp only [prog, running]
    exact List.Subset.refl _
  · simp only [prog, running]
    exact List.Subset.refl _
  · have left : party.remaining = c :: rest := by
      simp only [remaining, running]
    simp only [prog, running, execute]
    split
    next op found =>
      rw [DB.exec_bind, left]
      exact List.subset_cons_of_subset c (party.remaining_resume rest replies _)
    next => exact List.Subset.refl _

theorem performs_queued_mem {party : Party} {c : Command}
    (performs : party.performs .queued = some c) :
    c ∈ party.remaining := by
  rcases running : party.running with _ | ⟨_ | ⟨c', rest⟩, replies⟩
  · simp [Party.performs, running] at performs
  · simp [Party.performs, running] at performs
  · simp only [Party.performs, running, Option.some.injEq] at performs
    simp only [remaining, running]
    exact performs ▸ List.mem_cons_self

end Party

/-! ## Keys that are shared -/

theorem expired_of_le {db : DB} {key : String} {now latest : Instant}
    (live : db.expired latest key = false) (early : now ≤ latest) : db.expired now key = false := by
  unfold DB.expired at live ⊢
  cases found : db.expirations.lookup key with
  | none => rfl
  | some deadline =>
      rw [found] at live
      exact decide_eq_false fun passed => of_decide_eq_false live (passed.trans_le early)

theorem effect_of_reads {c : Command} (reads : c.Reads) {key : String} (named : c.key = some key)
    {db : DB} {now : Instant} (live : db.expired now key = false) :
    (effect target now db c).2 = db := by
  have kept : db.settle now key = db := by
    rw [DB.settle, live, if_neg Bool.false_ne_true]
  cases c with
  | get =>
      cases named
      rw [effect_get, kept]
  | lrange =>
      cases named
      rw [effect_lrange, kept]
  | _ => exact reads.elim

/-- Calls that leave an entry alone. -/
theorem entry_exec_of_calls {α : Type} {prog : DbProg α} {key : String}
    (calls : prog.Calls fun op => ∀ env db, (op.step env db).2.entry key = db.entry key)
    (now : Instant) (db : DB) : (DB.exec now prog db).2.entry key = db.entry key := by
  induction prog generalizing db with
  | ret value => rfl
  | call op next ih => exact (ih _ (calls.2 _) _).trans (calls.1 _ _)

namespace Machine

variable {machine start : Machine} {id : ℕ} {own actions : List Action} {action : Action}
  {shared : Set String} {latest : Instant}

/-- The command that an action executes against the maps. -/
def performs (machine : Machine) (action : Action) : Option Command :=
  (machine.parties action.id).performs action.step

/-- The deadlines of the keys that may be shared have not passed. -/
def Live (shared : Set String) (latest : Instant) (machine : Machine) : Prop :=
  ∀ key ∈ shared, machine.db.expired latest key = false

/-- What an action does to the maps, if it reads a shared key. -/
theorem exec_of_reads (live : Live shared latest machine) (early : action.now ≤ latest)
    {c : Command} (performs : machine.performs action = some c) (reads : c.Reads) {key : String}
    (member : key ∈ shared) (named : c.key = some key) :
    (DB.exec action.now ((machine.parties action.id).prog target action.step) machine.db).2 =
      machine.db := by
  have plain : ¬c.Controls := by
    cases c with
    | get | lrange => exact not_false
    | _ => exact reads.elim
  rcases @Party.prog_cases target (machine.parties action.id) action.step with
    ⟨idle, -⟩ | ⟨c', next, performs', same⟩
  · cases performs.symm.trans idle
  · cases performs.symm.trans performs'
    rw [same, exec_execute plain]
    exact effect_of_reads reads named (expired_of_le (live key member) early)

/-- Shared keys stay as they are. -/
theorem live_step (live : Live shared latest machine) (early : action.now ≤ latest)
    (spares : ∀ c, machine.performs action = some c → c.Spares shared) :
    Live shared latest (machine.step target action) := by
  intro key member
  have entry : (machine.step target action).db.entry key = machine.db.entry key := by
    by_cases here : ∃ c, machine.performs action = some c ∧ c.key = some key
    · rcases here with ⟨c, performs, named⟩
      have reads := spares c performs key member named
      exact congrArg (DB.entry · key) (exec_of_reads live early performs reads member named)
    · apply entry_exec_of_calls
      apply (Party.calls_prog _ _).mono
      rintro op ⟨c, key', performs, named, on⟩ env db
      apply on.entry_step
      rintro rfl
      exact here ⟨c, performs, named⟩
  have deadline : (machine.step target action).db.expirations.lookup key =
      machine.db.expirations.lookup key := congrArg Entry.deadline entry
  rw [DB.expired, deadline]
  exact live key member

theorem parties_step_of_ne {other : ℕ} (different : other ≠ action.id) :
    (machine.step target action).parties other = machine.parties other :=
  Function.update_of_ne different _ _

theorem performs_step {other : Action} (different : other.id ≠ action.id) :
    (machine.step target action).performs other = machine.performs other := by
  rw [performs, parties_step_of_ne different, performs]

/-- Steps of different connections can be exchanged, if they work on different keys or
read a shared one. -/
theorem step_comm (live : Live shared latest machine) {first second : Action}
    (different : first.id ≠ second.id) (early : first.now ≤ latest) (early' : second.now ≤ latest)
    (apart : ∀ c c', machine.performs first = some c → machine.performs second = some c' →
      c.Apart shared c') :
    (machine.step target first).step target second =
      (machine.step target second).step target first := by
  by_cases meets : ∃ c c' key, machine.performs first = some c ∧
      machine.performs second = some c' ∧ c.key = some key ∧ c'.key = some key
  · -- Both read, so that neither of them changes the maps.
    rcases meets with ⟨c, c', key, performs, performs', named, named'⟩
    rcases apart c c' performs performs' key named named' with ⟨member, reads, reads'⟩
    have kept := @exec_of_reads target _ _ _ _ live early c performs reads key member named
    have kept' := @exec_of_reads target _ _ _ _ live early' c' performs' reads' key member named'
    simp only [step, Function.update_of_ne different, Function.update_of_ne different.symm, kept,
      kept']
    rw [Function.update_comm different]
  · have commutes : Commutes
        (DB.exec first.now ((machine.parties first.id).prog target first.step))
        (DB.exec second.now ((machine.parties second.id).prog target second.step)) := by
      apply Prog.commutes_run _ (Party.calls_prog _ _) (Party.calls_prog _ _)
      rintro op op' ⟨c, key, performed, known, on⟩ ⟨c', key', performed', known', on'⟩
      apply on.commutes _ on'
      rintro rfl
      exact meets ⟨c, c', key, performed, performed', known, known'⟩
    simp only [step, Function.update_of_ne different, Function.update_of_ne different.symm,
      commutes.state, commutes.first, commutes.second]
    rw [Function.update_comm different]

theorem performs_run {other : Action} (different : ∀ action ∈ actions, other.id ≠ action.id) :
    (machine.run target actions).performs other = machine.performs other := by
  induction actions generalizing machine with
  | nil => rfl
  | cons action rest ih =>
      rcases List.forall_mem_cons.mp different with ⟨here, later⟩
      rw [run_cons, ih later, performs_step here]

/-- The commands that the actions of a run execute against the maps. -/
def performed (target : Target) : Machine → List Action → List Command
  | _, [] => []
  | machine, action :: rest =>
      (machine.performs action).toList ++ performed target (machine.step target action) rest

/-- An action that keeps away from a run of another connection can be made before it or
after it. -/
theorem run_step (live : Live shared latest machine)
    (mine : ∀ action ∈ own, action.id = id ∧ action.now ≤ latest) (other : action.id ≠ id)
    (early : action.now ≤ latest) (spares : ∀ c ∈ performed target machine own, c.Spares shared)
    (apart : ∀ c ∈ performed target machine own, ∀ c', machine.performs action = some c' →
      c.Apart shared c') :
    (machine.step target action).run target own = (machine.run target own).step target action ∧
      performed target (machine.step target action) own = performed target machine own := by
  induction own generalizing machine with
  | nil => exact ⟨rfl, rfl⟩
  | cons first rest ih =>
      rcases List.forall_mem_cons.mp mine with ⟨mineFirst, mineRest⟩
      have different : first.id ≠ action.id := fun same => other (same.symm.trans mineFirst.1)
      have here : ∀ c, machine.performs first = some c →
          c ∈ performed target machine (first :: rest) := by
        intro c performs
        apply List.mem_append_left
        rw [performs]
        exact List.mem_singleton_self c
      have exchange : (machine.step target first).step target action =
          (machine.step target action).step target first :=
        step_comm live different mineFirst.2 early fun c c' performs => apart c (here c performs) c'
      have apartRest : ∀ c ∈ performed target (machine.step target first) rest, ∀ c',
          (machine.step target first).performs action = some c' → c.Apart shared c' := by
        intro c member c' performs
        rw [performs_step different.symm] at performs
        exact apart c (List.mem_append_right _ member) c' performs
      have live' : Live shared latest (machine.step target first) :=
        live_step live mineFirst.2 fun c performs => spares c (here c performs)
      have later := ih live' mineRest
        (fun c member => spares c (List.mem_append_right _ member)) apartRest
      rw [exchange] at later
      constructor
      · exact later.1
      · rw [performed, performed, performs_step different, later.2]

/-! ## Isolation -/

/-- Each command that another connection executes in a run keeps away from the commands
that the connection `id` has executed before it, of which `used` are there from the start.
Nobody changes a shared key. -/
def ApartFromUsed (target : Target) (shared : Set String) (id : ℕ) :
    List Command → Machine → List Action → Prop
  | _, _, [] => True
  | used, machine, action :: rest =>
      (∀ c, machine.performs action = some c → c.Spares shared) ∧
      if action.id = id then
        ApartFromUsed target shared id (used ++ (machine.performs action).toList)
          (machine.step target action) rest
      else
        (∀ c ∈ used, ∀ c', machine.performs action = some c' → c.Apart shared c') ∧
          ApartFromUsed target shared id used (machine.step target action) rest

/-- Each command that another connection executes in a run keeps away from the commands
that the EXEC of `id` has yet to execute.  Nobody changes a shared key. -/
def ApartFromLeft (target : Target) (shared : Set String) (id : ℕ) :
    Machine → List Action → Prop
  | _, [] => True
  | machine, action :: rest =>
      (∀ c, machine.performs action = some c → c.Spares shared) ∧
      (action.id ≠ id → ∀ c ∈ (machine.parties id).remaining, c.Spares shared ∧
        ∀ c', machine.performs action = some c' → c.Apart shared c') ∧
        ApartFromLeft target shared id (machine.step target action) rest

/-- The actions of one connection. -/
def ownActions (id : ℕ) (actions : List Action) : List Action :=
  actions.filter (·.id = id)

/-- The actions of all connections but one. -/
def otherActions (id : ℕ) (actions : List Action) : List Action :=
  actions.filter (·.id ≠ id)

theorem performed_append (first second : List Action) :
    performed target machine (first ++ second) =
      performed target machine first ++ performed target (machine.run target first) second := by
  induction first generalizing machine with
  | nil => rfl
  | cons action rest ih => rw [List.cons_append, performed, ih, performed, List.append_assoc]; rfl

/-- Nobody changes a shared key in a run that keeps away from what was used. -/
theorem live_run {used : List Command} (live : Live shared latest machine)
    (times : ∀ action ∈ actions, action.now ≤ latest)
    (apart : ApartFromUsed target shared id used machine actions) :
    Live shared latest (machine.run target actions) := by
  induction actions generalizing machine used with
  | nil => exact live
  | cons action rest ih =>
      rcases List.forall_mem_cons.mp times with ⟨early, later⟩
      rw [ApartFromUsed] at apart
      have next : Live shared latest (machine.step target action) := live_step live early apart.1
      by_cases isOwn : action.id = id
      · rw [if_pos isOwn] at apart
        exact ih next later apart.2
      · rw [if_neg isOwn] at apart
        exact ih next later apart.2.2

/-- Actions of others that keep away from what an EXEC has used can be made before it. -/
theorem run_others_first (live : Live shared latest start)
    (mine : ∀ action ∈ own, action.id = id ∧ action.now ≤ latest)
    (times : ∀ action ∈ actions, action.now ≤ latest)
    (spares : ∀ c ∈ performed target start own, c.Spares shared)
    (apart : ApartFromUsed target shared id (performed target start own) (start.run target own)
      actions) :
    start.run target (own ++ actions) =
      start.run target (otherActions id actions ++ (own ++ ownActions id actions)) := by
  induction actions generalizing start own with
  | nil => rfl
  | cons action rest ih =>
      rcases List.forall_mem_cons.mp times with ⟨early, later⟩
      rw [ApartFromUsed] at apart
      rcases apart with ⟨spared, apart⟩
      by_cases isOwn : action.id = id
      · have mine' : ∀ step ∈ own ++ [action], step.id = id ∧ step.now ≤ latest := by
          intro step member
          rcases List.mem_append.mp member with earlier | last
          · exact mine step earlier
          · exact List.mem_singleton.mp last ▸ ⟨isOwn, early⟩
        have whole : performed target start (own ++ [action]) = performed target start own ++
            ((start.run target own).performs action).toList := by
          rw [performed_append, performed, performed, List.append_nil]
        have spares' : ∀ c ∈ performed target start (own ++ [action]), c.Spares shared := by
          rw [whole]
          intro c member
          rcases List.mem_append.mp member with earlier | last
          · exact spares c earlier
          · exact spared c (Option.mem_toList.mp last)
        rw [if_pos isOwn] at apart
        have apart' : ApartFromUsed target shared id (performed target start (own ++ [action]))
            (start.run target (own ++ [action])) rest := by
          rw [whole, run_append]
          exact apart
        have moved := ih live mine' later spares' apart'
        rw [List.append_assoc, List.append_assoc] at moved
        simpa [ownActions, otherActions, isOwn] using moved
      · rw [if_neg isOwn] at apart
        have same : (start.run target own).performs action = start.performs action := by
          apply performs_run
          intro step member
          rwa [(mine step member).1]
        rw [same] at apart spared
        have exchange := run_step live mine isOwn early spares apart.1
        have live' : Live shared latest (start.step target action) := live_step live early spared
        have spares' : ∀ c ∈ performed target (start.step target action) own,
            c.Spares shared := by
          rw [exchange.2]
          exact spares
        have apart' : ApartFromUsed target shared id
            (performed target (start.step target action) own)
            ((start.step target action).run target own) rest := by
          rw [exchange.1, exchange.2]
          exact apart.2
        have front : start.run target (own ++ action :: rest) =
            (start.step target action).run target (own ++ rest) := by
          rw [run_append, run_append, run_cons, exchange.1]
        rw [front, ih live' mine later spares' apart']
        simp [ownActions, otherActions, isOwn]

/-- The queued commands that an EXEC executes are among those it has left. -/
theorem performed_subset (queued : ∀ action ∈ own, action.id = id ∧ action.step = .queued) :
    performed target machine own ⊆ (machine.parties id).remaining := by
  induction own generalizing machine with
  | nil => exact List.nil_subset _
  | cons action rest ih =>
      rcases List.forall_mem_cons.mp queued with ⟨⟨rfl, here⟩, later⟩
      apply List.append_subset.mpr
      constructor
      · intro c member
        rw [performs, here] at member
        exact Party.performs_queued_mem (Option.mem_toList.mp member)
      · have left : ((machine.step target action).parties action.id).remaining ⊆
            (machine.parties action.id).remaining := by
          simp only [step, Function.update_self, here]
          exact Party.remaining_queued ..
        exact List.Subset.trans (ih later) left

/-- Actions of others that keep away from what an EXEC has left can be made after it. -/
theorem run_others_last (live : Live shared latest machine)
    (times : ∀ action ∈ actions, action.now ≤ latest)
    (queued : ∀ action ∈ actions, action.id = id → action.step = .queued)
    (apart : ApartFromLeft target shared id machine actions) :
    machine.run target actions =
      machine.run target (ownActions id actions ++ otherActions id actions) := by
  induction actions generalizing machine with
  | nil => rfl
  | cons action rest ih =>
      rcases List.forall_mem_cons.mp queued with ⟨here, later⟩
      rcases List.forall_mem_cons.mp times with ⟨early, times'⟩
      have moved := ih (live_step live early apart.1) times' later apart.2.2
      by_cases isOwn : action.id = id
      · simpa [ownActions, otherActions, isOwn] using moved
      · have mine : ∀ step ∈ ownActions id rest,
            (step.id = id ∧ step.now ≤ latest) ∧ step.step = .queued := by
          intro step member
          rcases List.mem_filter.mp member with ⟨inside, isOwn⟩
          exact ⟨⟨of_decide_eq_true isOwn, times' step inside⟩,
            later step inside (of_decide_eq_true isOwn)⟩
        have among := @performed_subset target machine id (ownActions id rest)
          fun step member => ⟨(mine step member).1.1, (mine step member).2⟩
        have away := fun c member => apart.2.1 isOwn c (among member)
        have exchange := run_step live (fun step member => (mine step member).1) isOwn early
          (fun c member => (away c member).1) fun c member => (away c member).2
        rw [run_cons, moved, run_append, exchange.1]
        simp [ownActions, otherActions, isOwn, run_append]

/-- A run in which a connection executes an EXEC: if, up to some point, the others keep
away from what the EXEC has used, and from there on from what it has left, then the maps
and the answers to all connections are those of the run in which it is not interrupted.
Keys whose deadline does not pass before the end of the EXEC may be read by all. -/
theorem exec_isolated (target : Target) (machine : Machine) (id : ℕ) (now : Instant)
    (before early late after : List Action) {shared : Set String} {latest : Instant}
    (live : Live shared latest (machine.run target before))
    (times : ∀ action ∈ ⟨id, .command .exec, now⟩ :: (early ++ late), action.now ≤ latest)
    (queued : ∀ action ∈ early ++ late, action.id = id → action.step = .queued)
    (used : ApartFromUsed target shared id []
      (machine.run target (before ++ [⟨id, .command .exec, now⟩])) early)
    (left : ApartFromLeft target shared id
      (machine.run target (before ++ [⟨id, .command .exec, now⟩] ++ early)) late) :
    machine.run target (before ++ ⟨id, .command .exec, now⟩ :: (early ++ late) ++ after) =
      machine.run target (before ++ otherActions id early ++
        (⟨id, .command .exec, now⟩ :: ownActions id (early ++ late)) ++
          otherActions id late ++ after) := by
  rcases List.forall_mem_cons.mp times with ⟨soon, times⟩
  have mine : ∀ action ∈ [(⟨id, .command .exec, now⟩ : Action)],
      action.id = id ∧ action.now ≤ latest := by
    intro action member
    rw [List.mem_singleton.mp member]
    exact ⟨rfl, soon⟩
  have nothing : ∀ c, (machine.run target before).performs ⟨id, .command .exec, now⟩ ≠ some c := by
    simp [performs, Party.performs, Command.Controls]
  have unused : performed target (machine.run target before) [⟨id, .command .exec, now⟩] = [] := by
    rw [performed, performed, Option.eq_none_iff_forall_ne_some.mpr nothing]
    rfl
  have begun : Live shared latest
      (machine.run target (before ++ [⟨id, .command .exec, now⟩])) := by
    rw [run_append]
    exact live_step live soon fun c performs => absurd performs (nothing c)
  have half := live_run begun (fun action member => times action (List.mem_append_left _ member))
    used
  rw [run_append, ← unused] at used
  have first := run_others_first live mine
    (fun action member => times action (List.mem_append_left _ member))
    (by rw [unused]; exact fun c member => absurd member List.not_mem_nil) used
  rw [← run_append] at half
  have last := run_others_last half
    (fun action member => times action (List.mem_append_right _ member))
    (fun action member => queued action (List.mem_append_right early member)) left
  rw [List.append_assoc, run_append, first] at last
  have own : ownActions id (early ++ late) = ownActions id early ++ ownActions id late :=
    List.filter_append early late
  calc machine.run target (before ++ ⟨id, .command .exec, now⟩ :: (early ++ late) ++ after)
      = (((machine.run target before).run target
          ([⟨id, .command .exec, now⟩] ++ early)).run target late).run target after := by
        simp only [run_append, run_cons, run_nil]
    _ = _ := by
        rw [first, last, own]
        simp only [run_append, run_cons, run_nil]

/-- Another connection sets another key while an EXEC is under way, and both read a third
one. -/
theorem exec_isolated_other_key :
    run ⟨true, 24⟩ ⟨DB.newInMemory, fun _ => Party.new⟩
        [⟨0, .command .multi, 0⟩, ⟨0, .command (.set "a" "1" none), 0⟩,
          ⟨0, .command (.get "c"), 0⟩, ⟨0, .command .exec, 0⟩, ⟨0, .queued, 0⟩,
          ⟨1, .command (.set "b" "2" none), 0⟩, ⟨1, .command (.get "c"), 0⟩, ⟨0, .queued, 0⟩] =
      run ⟨true, 24⟩ ⟨DB.newInMemory, fun _ => Party.new⟩
        [⟨0, .command .multi, 0⟩, ⟨0, .command (.set "a" "1" none), 0⟩,
          ⟨0, .command (.get "c"), 0⟩, ⟨0, .command .exec, 0⟩, ⟨0, .queued, 0⟩, ⟨0, .queued, 0⟩,
          ⟨1, .command (.set "b" "2" none), 0⟩, ⟨1, .command (.get "c"), 0⟩] := by
  let shared : Set String := Set.singleton "c"
  have sets : ∀ key value, key ≠ "c" → Command.Spares shared (.set key value none) := by
    rintro key value other - rfl ⟨⟩
    exact absurd rfl other
  have reads : Command.Spares shared (.get "c") := fun _ _ _ => trivial
  have apart : Command.Apart shared (.get "c") (.set "b" "2" none) := by
    rintro key ⟨⟩ same
    exact absurd same (by decide)
  have both : Command.Apart shared (.get "c") (.get "c") := by
    rintro key ⟨⟩ -
    exact ⟨rfl, trivial, trivial⟩
  apply @exec_isolated ⟨true, 24⟩ ⟨DB.newInMemory, fun _ => Party.new⟩ 0 0
    [⟨0, .command .multi, 0⟩, ⟨0, .command (.set "a" "1" none), 0⟩, ⟨0, .command (.get "c"), 0⟩]
    [⟨0, .queued, 0⟩]
    [⟨1, .command (.set "b" "2" none), 0⟩, ⟨1, .command (.get "c"), 0⟩, ⟨0, .queued, 0⟩] []
    shared 0
  · rintro key rfl
    rfl
  · simp
  · simp
  · constructor
    · rintro c ⟨⟩
      exact sets "a" "1" (by decide)
    · exact trivial
  · refine ⟨?_, ?_, ?_, ?_, ?_, ?_, trivial⟩
    · rintro c ⟨⟩
      exact sets "b" "2" (by decide)
    · rintro - c member
      cases List.mem_singleton.mp member
      constructor
      · exact reads
      · rintro c' ⟨⟩
        exact apart
    · rintro c ⟨⟩
      exact reads
    · rintro - c member
      cases List.mem_singleton.mp member
      constructor
      · exact reads
      · rintro c' ⟨⟩
        exact both
    · rintro c ⟨⟩
      exact reads
    · exact fun other => absurd rfl other

theorem visible_settle (db : DB) (key : String) (first second : Instant) :
    (db.settle first key).visible second key = none ∨
      (db.settle first key).visible second key = db.visible first key := by
  unfold DB.settle
  split
  next => exact Or.inl (by rw [DB.visible_evict, if_pos rfl])
  next live =>
    unfold DB.visible
    rw [if_neg live]
    split
    · exact Or.inl rfl
    · exact Or.inr rfl

theorem getReply_cases (value : Option RedisObject) :
    (∃ e, replyWith replyGet (DB.getReply value) = .error e) ∨
      ∃ text, replyWith replyGet (DB.getReply value) = .ok (.bulkString text) := by
  rcases value with _ | text | items
  · exact Or.inr ⟨"nil", rfl⟩
  · exact Or.inr ⟨text, rfl⟩
  · exact Or.inl ⟨_, rfl⟩

theorem getLast_answers (db : DB) (parties : ℕ → Party) (party : Party) (client : Client)
    (outcome : Outcome String RespType) :
    ((⟨db, Function.update parties id (party.answer client outcome)⟩ : Machine).parties
      id).answers.getLast? = some outcome := by
  simp only [Function.update_self, Party.answer, List.getLast?_concat]

/-- Two GETs of one key in an EXEC that is not interrupted: one of them is refused, or
the second finds nothing, or both find the same. -/
theorem answer_of_two_gets (start : Machine) (key : String) (first second : Instant)
    (running : (start.parties id).running = some ([.get key, .get key], [])) :
    ∃ outcome, ((start.run target [⟨id, .queued, first⟩, ⟨id, .queued, second⟩]).parties
        id).answers.getLast? = some outcome ∧
      ((∃ e, outcome = .error e) ∨ ∃ text text', (text' = "nil" ∨ text' = text) ∧
        outcome = .ok (.array [.bulkString text, .bulkString text'])) := by
  have later := visible_settle start.db key first second
  have plain : ¬(Command.get key).Controls := not_false
  rw [run_cons, step_queued plain rfl running, effect_get]
  rcases getReply_cases (start.db.visible first key) with ⟨e, refused⟩ | ⟨text, replied⟩
  · -- The refusal ends the EXEC, so that there is no second GET.
    exists .error ("Failed to execute queued commands. E: " ++ e)
    rw [refused]
    constructor
    · exact (congrArg (fun last : Machine => (last.parties id).answers.getLast?)
        (run_queued_of_answered _ _ _ _ _ [second])).trans (getLast_answers ..)
    · exact Or.inl ⟨_, rfl⟩
  · rw [replied, run_cons, run_nil, step_queued plain (Function.update_self ..) rfl, effect_get]
    rcases later with gone | same
    · exists .ok (.array [.bulkString text, .bulkString "nil"])
      rw [gone]
      exact ⟨getLast_answers .., Or.inr ⟨text, "nil", Or.inl rfl, rfl⟩⟩
    · exists .ok (.array [.bulkString text, .bulkString text])
      rw [same, replied]
      exact ⟨getLast_answers .., Or.inr ⟨text, text, Or.inr rfl, rfl⟩⟩

/-- Two GETs of one transaction with a SET of another connection between them: no
uninterrupted EXEC, whatever the maps hold and whenever it runs, is answered like
that. -/
theorem exec_sees_other_connection :
    ((run ⟨true, 24⟩ ⟨DB.newInMemory, fun _ => Party.new⟩
        [⟨0, .command .multi, 0⟩, ⟨0, .command (.get "x"), 0⟩, ⟨0, .command (.get "x"), 0⟩,
          ⟨0, .command .exec, 0⟩, ⟨0, .queued, 0⟩, ⟨1, .command (.set "x" "1" none), 0⟩,
          ⟨0, .queued, 0⟩]).parties 0).answers.getLast? =
      some (.ok (.array [.bulkString "nil", .bulkString "1"])) ∧
    ∀ (target : Target) (start : Machine) (first second : Instant),
      (start.parties 0).running = some ([.get "x", .get "x"], []) →
        ((start.run target [⟨0, .queued, first⟩, ⟨0, .queued, second⟩]).parties
            0).answers.getLast? ≠
          some (.ok (.array [.bulkString "nil", .bulkString "1"])) := by
  constructor
  · rfl
  · intro target start first second running
    rcases answer_of_two_gets start "x" first second running with
      ⟨outcome, last, ⟨e, rfl⟩ | ⟨text, text', related, rfl⟩⟩
    · rw [last]
      nofun
    · rw [last]
      intro same
      simp only [Option.some.injEq, Outcome.ok.injEq, RespType.array.injEq, List.cons.injEq,
        RespType.bulkString.injEq, and_true] at same
      rw [same.1, same.2] at related
      revert related
      decide

end Machine

end Isolation

end Ember
