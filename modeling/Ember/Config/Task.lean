import Ember.Base.Threads
import Ember.Command.Isolation
import Ember.Config.Segmentation

/-!
# A connection as one task among others

The whole of a connection, from its bytes to its bytes, as the program of map calls it
makes.  Tasks of other connections make their calls in between, in any order, so that
nothing is assumed about the answers.  Whatever they are, the connection answers every
frame and all malformed bytes it reads, once each and in order.

A run in which nobody else makes a call is the connection that has the server for
itself.
-/

namespace Ember

open Ember.Base Ember.Base.Framing Ember.Database Ember.Resp

/-- A connection without the maps it works on. -/
def Connection.withoutDb (conn : Connection Session) : Connection Client :=
  ⟨conn.buf, conn.writer, conn.state.client⟩

/-- The result of the inner loop without the maps. -/
def Drained.withoutDb : Drained Session → Drained Client
  | .done madeProgress conn => .done madeProgress conn.withoutDb
  | .panicked conn => .panicked conn.withoutDb

/-- What a connection asks of the server: to look at the clock, and to execute a command
that does not control its transaction. -/
structure Service (Op : Type) (Res : Op → Type) where
  target : Target
  now : Prog Op Res Instant
  operation : Command → Option (Prog Op Res (Outcome String RespType))

/-- Commands are executed by the map calls of their operations. -/
def Service.maps (target : Target) : Service Call Call.Response :=
  ⟨target, perform .now, Dispatcher.operation target⟩

@[simp]
theorem Service.target_maps (target : Target) : (Service.maps target).target = target :=
  rfl

namespace Task

section Defs

variable {Op : Type} {Res : Op → Type}

/-- The loop of EXEC over its copy of the queue. -/
def executeQueue
    (execute : Client → Command → Prog Op Res (Option (Outcome String RespType × Client))) :
    List Command → List RespType → Client →
      Prog Op Res (Option (Outcome String RespType × Client))
  | [], replies, _ => return some (.ok (.array replies), ⟨false, []⟩)
  | c :: rest, replies, client => do
      match ← execute client c with
      | some (.ok rep, client) => executeQueue execute rest (replies ++ [rep]) client
      | some (.error e, client) =>
          return some (.error ("Failed to execute queued commands. E: " ++ e), client)
      | some (.panic, client) => return some (.panic, client)
      | none => return none

/-- Execution of a command, with at most `depth` nested calls. -/
def executeCommand (service : Service Op Res) :
    (depth : ℕ) → Client → Command → Prog Op Res (Option (Outcome String RespType × Client))
  | 0, _, _ => return none
  | depth + 1, client, cmd =>
      match cmd with
      | .multi => return some (.ok (.simpleString "Ok"), ⟨true, []⟩)
      | .discard => return some (.ok (.simpleString "Ok"), ⟨false, []⟩)
      | .exec => executeQueue (executeCommand service depth) client.queuedCommands [] client
      | cmd =>
          match service.operation cmd with
          | some prog => do return some (← prog, client)
          | none => return none

/-- Dispatch a command: inside a transaction everything but EXEC and DISCARD is
queued or refused. -/
def dispatch (service : Service Op Res) (depth : ℕ) (client : Client) (cmd : Command) :
    Prog Op Res (Option (Outcome String RespType × Client)) :=
  if client.inTransaction then
    match cmd with
    | .multi => return some (.error "Can not nest multi", client)
    | .exec | .discard => executeCommand service depth client cmd
    | cmd => return some (.ok (.simpleString "QUEUED"),
        { client with queuedCommands := client.queuedCommands ++ [cmd] })
  else
    executeCommand service depth client cmd

/-- The command of a frame is dispatched, if there is one. -/
def dispatchExtracted (service : Service Op Res) (client : Client) :
    Outcome String Command → Prog Op Res (Outcome String RespType × Client)
  | .ok cmd => do return (← dispatch service 2 client cmd).getD (.panic, client)
  | .error e => return (.error e, client)
  | .panic => return (.panic, client)

/-- A frame is turned into a command, which is then dispatched. -/
def serve (service : Service Op Res) (resp : RespType) (client : Client) :
    Prog Op Res (Outcome String RespType × Client) := do
  dispatchExtracted service client (Command.extractCommand service.target (← service.now) resp)

/-- The inner loop, over the frames in the buffer. -/
def drain (service : Service Op Res) (fuel pipelineCount : ℕ) (madeProgress : Bool)
    (conn : Connection Client) : Prog Op Res (Drained Client) :=
  (Connection.host service.target (serve service)).drain fuel pipelineCount madeProgress conn

/-- What follows a read. -/
def serveBuffered (service : Service Op Res) (conn : Connection Client) :
    Prog Op Res (Drained Client) :=
  (Connection.host service.target (serve service)).serveBuffered conn

/-- The outer loop. -/
def handle (service : Service Op Res) (events : List ReadEvent) (conn : Connection Client) :
    Prog Op Res (Exit × Connection Client) :=
  (Connection.host service.target (serve service)).handle events conn

/-- The task of a new connection. -/
def connection (spill : Spill UInt8) (service : Service Op Res) (events : List ReadEvent) :
    Prog Op Res (Exit × Connection Client) :=
  handle service events (Connection.new spill Client.new)

variable {service : Service Op Res}

theorem executeCommand_plain {c : Command} (plain : ¬c.Controls) (depth : ℕ) (client : Client) :
    executeCommand service (depth + 1) client c =
      match service.operation c with
      | some prog => do return some (← prog, client)
      | none => return none := by
  cases c with
  | multi | discard | exec => exact absurd trivial plain
  | _ => rfl

theorem dispatch_plain {c : Command} (plain : ¬c.Controls) (depth : ℕ) (client : Client) :
    dispatch service depth client c =
      if client.inTransaction then
        return some (.ok (.simpleString "QUEUED"),
          { client with queuedCommands := client.queuedCommands ++ [c] })
      else
        executeCommand service depth client c := by
  cases c with
  | multi | discard | exec => exact absurd trivial plain
  | _ => rfl

theorem drain_succ (fuel pipelineCount : ℕ) (madeProgress : Bool) (conn : Connection Client) :
    drain service (fuel + 1) pipelineCount madeProgress conn =
      if conn.buf = [] then
        return .done madeProgress conn
      else
        match Parser.parse service.target conn.buf with
        | .ok (resp, consumed) => do
            match ← serve service resp conn.state with
            | (.ok res, client) =>
                let conn := Connection.reply ⟨conn.buf.drop consumed, conn.writer, client⟩ res
                if maxPipelineDepth ≤ pipelineCount + 1 then
                  drain service fuel 0 true conn.flush
                else
                  drain service fuel (pipelineCount + 1) true conn
            | (.error e, client) =>
                drain service fuel (pipelineCount + 1) true
                  (Connection.reply ⟨conn.buf.drop consumed, conn.writer, client⟩ (.simpleError e))
            | (.panic, client) => return .panicked ⟨conn.buf.drop consumed, conn.writer, client⟩
        | .error .incomplete => return .done madeProgress conn
        | .error (.invalid msg) =>
            return .done madeProgress { (conn.reply (.simpleError msg)).flush with buf := [] }
        | .panic => return .panicked conn := by
  rw [drain, Connection.drain_host]
  split
  · rfl
  · cases Parser.parse service.target conn.buf with
    | ok accepted =>
        rcases accepted with ⟨resp, consumed⟩
        dsimp only
        congr 1
        funext served
        rcases served with ⟨_ | _ | _, client⟩ <;> rfl
    | error reason => cases reason <;> rfl
    | panic => rfl

theorem serveBuffered_eq (conn : Connection Client) :
    serveBuffered service conn = do
      match ← drain service conn.buf.length 0 false conn with
      | .done madeProgress conn =>
          return .done madeProgress
            (if madeProgress ∧ conn.writer.buffer ≠ [] then conn.flush else conn)
      | .panicked conn => return .panicked conn := by
  rw [serveBuffered, Connection.serveBuffered_host]
  congr 1
  funext drained
  cases drained <;> rfl

theorem handle_nil (conn : Connection Client) :
    handle service [] conn = return (.closed, conn.flush) :=
  rfl

theorem handle_cons (event : ReadEvent) (events : List ReadEvent) (conn : Connection Client) :
    handle service (event :: events) conn =
      if conn.buf = [] ∧ event = .wouldBlock then
        handle service events conn
      else
        match conn.receive event with
        | none => return (.closed, conn.flush)
        | some conn => do
            match ← serveBuffered service conn with
            | .done _ conn => handle service events conn
            | .panicked conn => return (.panicked, conn) := by
  rw [handle, Connection.handle_host]
  split
  · rfl
  · cases conn.receive event with
    | none => rfl
    | some received =>
        dsimp only
        congr 1
        funext served
        cases served <;> rfl

end Defs

/-! ## A connection that is alone -/

section Alone

variable {target : Target} {clock : ℕ → Instant}

/-- A plain command at one reading of the clock. -/
theorem runs_executeCommand_plain (target : Target) {c : Command} (plain : ¬c.Controls) (depth : ℕ)
    (client : Client) (now : Instant) (db : DB) :
    ∃ envs, (executeCommand (.maps target) (depth + 1) client c).Runs Call.step db envs
      (some ((Dispatcher.effect target now db c).1, client))
      (Dispatcher.effect target now db c).2 := by
  cases found : Dispatcher.operation target c with
  | none => cases c <;> first | exact absurd trivial plain | cases found
  | some prog =>
      rcases prog.exists_runs_run (Env.at now) db with ⟨envs, runs⟩
      have here : (Service.maps target).operation c = some prog := found
      rw [executeCommand_plain plain depth client, here, Dispatcher.effect, found]
      exact ⟨envs ++ [], runs.bind (.ret _ _)⟩

theorem runs_executeQueue {queue : List Command} (plain : ∀ c ∈ queue, ¬c.Controls) (depth : ℕ)
    {replies : List RespType} {session session' : Session} {outcome : Outcome String RespType}
    (ran : Dispatcher.executeQueue (Dispatcher.executeCommand target clock (depth + 1)) queue
      replies session = some (outcome, session')) :
    ∃ envs, (executeQueue (executeCommand (.maps target) (depth + 1)) queue replies
      session.client).Runs Call.step session.db envs (some (outcome, session'.client))
        session'.db := by
  induction queue generalizing replies session with
  | nil =>
      cases ran
      exact ⟨[], .ret _ _⟩
  | cons c rest ih =>
      rcases List.forall_mem_cons.mp plain with ⟨plainHead, plainRest⟩
      obtain ⟨envs, runs⟩ := runs_executeCommand_plain target plainHead depth
        session.client (clock session.tick) session.db
      rw [Dispatcher.executeQueue, Dispatcher.executeCommand_plain target clock plainHead] at ran
      cases replied : (Dispatcher.effect target (clock session.tick) session.db c).1 with
      | ok rep =>
          rw [replied] at ran runs
          rcases ih plainRest ran with ⟨envs', rest⟩
          exact ⟨envs ++ envs', runs.bind rest⟩
      | error | panic =>
          rw [replied] at ran runs
          cases ran
          exact ⟨envs ++ [], runs.bind (.ret _ _)⟩

theorem runs_dispatch {session session' : Session} (wf : session.client.WellFormed)
    {cmd : Command} {outcome : Outcome String RespType}
    (ran : Dispatcher.dispatch target clock 2 session cmd = some (outcome, session')) :
    ∃ envs, (dispatch (.maps target) 2 session.client cmd).Runs Call.step session.db envs
      (some (outcome, session'.client)) session'.db := by
  by_cases inside : session.client.inTransaction = true
  · simp only [Dispatcher.dispatch, if_pos inside] at ran
    simp only [dispatch, if_pos inside]
    cases cmd with
    | exec => exact runs_executeQueue wf.plain 0 ran
    | _ =>
        cases ran
        exact ⟨[], .ret _ _⟩
  · simp only [Dispatcher.dispatch, if_neg inside] at ran
    simp only [dispatch, if_neg inside]
    by_cases controls : cmd.Controls
    · cases cmd with
      | exec => exact runs_executeQueue wf.plain 0 ran
      | multi | discard =>
          cases ran
          exact ⟨[], .ret _ _⟩
      | _ => exact controls.elim
    · rw [Dispatcher.executeCommand_plain target clock controls, Option.some.injEq,
        Prod.mk.injEq] at ran
      rcases ran with ⟨rfl, rfl⟩
      exact runs_executeCommand_plain target controls 1 ..

/-- A frame that is served alone.  The state of the transaction stays well formed. -/
theorem runs_serve (target : Target) (clock : ℕ → Instant) (resp : RespType) {session : Session}
    (wf : session.client.WellFormed) :
    let served := Client.serve target clock resp session
    served.2.client.WellFormed ∧
      ∃ envs, (serve (.maps target) resp session.client).Runs Call.step session.db envs
        (served.1, served.2.client) served.2.db := by
  intro served
  suffices runs : served.2.client.WellFormed ∧ ∃ envs,
      (dispatchExtracted (.maps target) session.client
        (Command.extractCommand target (clock session.tick) resp)).Runs Call.step session.db envs
          (served.1, served.2.client) served.2.db by
    rcases runs with ⟨wf', envs, rest⟩
    exact ⟨wf', Env.at (clock session.tick) :: envs, .call rest⟩
  cases extracted : Command.extractCommand target (clock session.tick) resp with
  | ok cmd =>
      let session₁ : Session := { session with tick := session.tick + 1 }
      obtain ⟨outcome, session', dispatched, transition⟩ :=
        Dispatcher.dispatch_transition target clock 0 session₁ wf cmd
      have same : served = (outcome, session') := by
        simp only [served, Client.serve, extracted]
        rw [dispatched, Option.getD_some]
      rw [same]
      have wf₁ : session₁.client.WellFormed := wf
      rcases runs_dispatch wf₁ dispatched with ⟨envs, runs⟩
      exact ⟨transition.wellFormed wf, envs ++ [], runs.bind (.ret _ _)⟩
  | error e =>
      have same : served = (.error e, session) := by
        simp only [served, Client.serve, extracted]
      rw [same]
      exact ⟨wf, [], .ret _ _⟩
  | panic =>
      have same : served = (.panic, session) := by
        simp only [served, Client.serve, extracted]
      rw [same]
      exact ⟨wf, [], .ret _ _⟩

/-- The inner loop alone. -/
theorem runs_drain (target : Target) (clock : ℕ → Instant) (fuel pipelineCount : ℕ)
    (madeProgress : Bool) (conn : Connection Session) (wf : conn.state.client.WellFormed) :
    let drained := Connection.drain target (Client.serve target clock) fuel pipelineCount
      madeProgress conn
    drained.conn.state.client.WellFormed ∧
      ∃ envs, (drain (.maps target) fuel pipelineCount madeProgress conn.withoutDb).Runs Call.step
        conn.state.db envs drained.withoutDb drained.conn.state.db := by
  induction fuel generalizing pipelineCount madeProgress conn with
  | zero => exact ⟨wf, [], .ret _ _⟩
  | succ fuel ih =>
      rcases conn with ⟨buf, writer, session⟩
      dsimp only [Connection.withoutDb] at wf ⊢
      rw [Connection.drain_succ, drain_succ]
      dsimp only [Service.target_maps]
      by_cases empty : buf = []
      · rw [if_pos empty, if_pos empty]
        exact ⟨wf, [], .ret _ _⟩
      rw [if_neg empty, if_neg empty]
      cases Parser.parse target buf with
      | ok accepted =>
          rcases accepted with ⟨resp, consumed⟩
          rcases runs_serve target clock resp wf with ⟨wf', envs, runs⟩
          dsimp only
          generalize Client.serve target clock resp session = served at wf' runs ⊢
          rcases served with ⟨res | e | _, session'⟩
          · let conn' := Connection.reply ⟨buf.drop consumed, writer, session'⟩ res
            by_cases deep : maxPipelineDepth ≤ pipelineCount + 1
            · rcases ih 0 true conn'.flush wf' with ⟨wf'', envs', rest⟩
              simp only [if_pos deep]
              exact ⟨wf'', envs ++ envs', runs.bind rest⟩
            · rcases ih (pipelineCount + 1) true conn' wf' with ⟨wf'', envs', rest⟩
              simp only [if_neg deep]
              exact ⟨wf'', envs ++ envs', runs.bind rest⟩
          · let conn' := Connection.reply ⟨buf.drop consumed, writer, session'⟩ (.simpleError e)
            rcases ih (pipelineCount + 1) true conn' wf' with ⟨wf'', envs', rest⟩
            exact ⟨wf'', envs ++ envs', runs.bind rest⟩
          · exact ⟨wf', envs ++ [], runs.bind (.ret _ _)⟩
      | error reason =>
          cases reason with
          | incomplete => exact ⟨wf, [], .ret _ _⟩
          | invalid message => exact ⟨wf, [], .ret _ _⟩
      | panic => exact ⟨wf, [], .ret _ _⟩

theorem runs_serveBuffered (target : Target) (clock : ℕ → Instant) (conn : Connection Session)
    (wf : conn.state.client.WellFormed) :
    let drained := Connection.serveBuffered target (Client.serve target clock) conn
    drained.conn.state.client.WellFormed ∧
      ∃ envs, (serveBuffered (.maps target) conn.withoutDb).Runs Call.step conn.state.db envs
        drained.withoutDb drained.conn.state.db := by
  rcases runs_drain target clock conn.buf.length 0 false conn wf with ⟨wf', envs, runs⟩
  rw [Connection.serveBuffered_eq, serveBuffered_eq]
  generalize Connection.drain target (Client.serve target clock) conn.buf.length 0 false conn =
    drained at wf' runs ⊢
  cases drained with
  | done madeProgress conn' =>
      by_cases sends : madeProgress ∧ conn'.writer.buffer ≠ []
      · have sends' : madeProgress ∧ conn'.withoutDb.writer.buffer ≠ [] := sends
        refine ⟨by simp only [if_pos sends]; exact wf', envs ++ [], runs.bind ?_⟩
        simp only [Drained.withoutDb, if_pos sends, if_pos sends']
        exact .ret _ _
      · have sends' : ¬(madeProgress ∧ conn'.withoutDb.writer.buffer ≠ []) := sends
        refine ⟨by simp only [if_neg sends]; exact wf', envs ++ [], runs.bind ?_⟩
        simp only [Drained.withoutDb, if_neg sends, if_neg sends']
        exact .ret _ _
  | panicked conn' => exact ⟨wf', envs ++ [], runs.bind (.ret _ _)⟩

theorem receive_withoutDb (conn : Connection Session) (event : ReadEvent) :
    conn.withoutDb.receive event = (conn.receive event).map Connection.withoutDb := by
  rcases event with (_ | _) | _ | _ <;> rfl

theorem kept_of_receive {S : Type} {conn received : Connection S} {event : ReadEvent}
    (got : conn.receive event = some received) :
    received.state = conn.state ∧ received.writer = conn.writer := by
  rcases event with (_ | _) | _ | _ <;> cases got <;> exact ⟨rfl, rfl⟩

/-- A connection that is alone does what `Connection.handle` does, each command at its
own reading of the clock. -/
theorem runs_handle (target : Target) (clock : ℕ → Instant) (events : List ReadEvent)
    (conn : Connection Session) (wf : conn.state.client.WellFormed) :
    let handled := Connection.handle target (Client.serve target clock) events conn
    ∃ envs, (handle (.maps target) events conn.withoutDb).Runs Call.step conn.state.db envs
      (handled.1, handled.2.withoutDb) handled.2.state.db := by
  induction events generalizing conn with
  | nil => exact ⟨[], .ret _ _⟩
  | cons event events ih =>
      rw [Connection.handle_cons, handle_cons]
      by_cases waits : conn.buf = [] ∧ event = .wouldBlock
      · have waits' : conn.withoutDb.buf = [] ∧ event = .wouldBlock := waits
        rw [if_pos waits, if_pos waits']
        exact ih conn wf
      have ready : ¬(conn.withoutDb.buf = [] ∧ event = .wouldBlock) := waits
      rw [if_neg waits, if_neg ready, receive_withoutDb]
      cases got : conn.receive event with
      | none => exact ⟨[], .ret _ _⟩
      | some received =>
          rw [← (kept_of_receive got).1] at wf ⊢
          rcases runs_serveBuffered target clock received wf with ⟨wf', envs, runs⟩
          dsimp only [Option.map_some]
          generalize Connection.serveBuffered target (Client.serve target clock) received =
            drained at wf' runs ⊢
          cases drained with
          | done madeProgress conn' =>
              rcases ih conn' wf' with ⟨envs', rest⟩
              exact ⟨envs ++ envs', runs.bind rest⟩
          | panicked conn' => exact ⟨envs ++ [], runs.bind (.ret _ _)⟩

/-- A connection that has the server for itself. -/
theorem run_connection_alone (spill : Spill UInt8) (target : Target) (clock : ℕ → Instant)
    (events : List ReadEvent) (db : DB) :
    let handled := Client.handle spill target clock events db
    ∃ envs : List Env, Pool.run Call.step ⟨db, [connection spill (.maps target) events]⟩
        (envs.map fun env => (0, env)) =
      ⟨handled.2.state.db, [.ret (handled.1, handled.2.withoutDb)]⟩ := by
  rcases runs_handle target clock events (Connection.new spill ⟨Client.new, db, 0⟩)
    (Client.wellFormed_of_queue_nil false) with ⟨envs, runs⟩
  exact ⟨envs, Pool.run_of_runs runs⟩

end Alone

end Task

/-! ## The tasks of a server -/

/-- The tasks of a server. -/
inductive Worker where
  | connection (events : List ReadEvent)
  | cleanup (passes : ℕ)

/-- The calls of a task, and how a connection ends. -/
def Worker.prog (spill : Spill UInt8) (target : Target) :
    Worker → DbProg (Option (Exit × Connection Client))
  | .connection events => do return some (← Task.connection spill (.maps target) events)
  | .cleanup passes => do
      let _ ← DB.activeExpirationCycle passes
      return none

/-- The bytes that a finished connection has written. -/
def Worker.output : DbProg (Option (Exit × Connection Client)) → Option (List UInt8)
  | .ret (some (_, conn)) => some conn.writer.written
  | _ => none

theorem Worker.ended_of_output {threads : Option (DbProg (Option (Exit × Connection Client)))}
    {bytes : List UInt8} (written : threads.bind Worker.output = some bytes) :
    ∃ exit conn, threads = some (.ret (some (exit, conn))) ∧ conn.writer.written = bytes := by
  rcases threads with _ | prog
  · cases written
  · cases prog with
    | call op next => cases written
    | ret value =>
        rcases value with _ | ⟨exit, conn⟩
        · cases written
        · cases written
          exact ⟨exit, conn, rfl, rfl⟩

end Ember
