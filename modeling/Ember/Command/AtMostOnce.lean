import Ember.Command.Transaction

/-!
# Queued commands over a run

A monitor follows the dispatches of one connection.  It numbers the commands as
they are queued and records which of them EXEC executes.  Between two dispatches
other clients may change the maps in any way.
-/

namespace Ember

open Ember.Base Ember.Database Ember.Resp Dispatcher

/-- One dispatch of a client: the command, the maps it finds and the clock. -/
structure Request where
  cmd : Command
  db : DB
  clock : ℕ → Instant

/-- A connection, the numbers of its queued commands and of those that EXEC has
executed.  A panic ends the connection. -/
structure Monitor where
  client : Client
  connected : Bool
  pending : List ℕ
  fresh : ℕ
  executed : List ℕ

namespace Monitor

/-- A new connection. -/
def new : Monitor :=
  ⟨Client.new, true, [], 0, []⟩

/-- The queued commands that a request executes. -/
def executes (target : Target) (monitor : Monitor) (request : Request) : List ℕ :=
  match request.cmd with
  | .exec => monitor.pending.take (attempts (executeCommand target request.clock 1)
      monitor.client.queuedCommands ⟨monitor.client, request.db, 0⟩)
  | _ => []

/-- One dispatch.  The queue grows by the command of the request, stays as it is,
or is cleared, and so do the numbers. -/
def step (target : Target) (monitor : Monitor) (request : Request) : Monitor :=
  if monitor.connected then
    match dispatch target request.clock 2 ⟨monitor.client, request.db, 0⟩ request.cmd with
    | some (outcome, session) =>
        { client := session.client
          connected := !outcome.isPanic
          pending := (monitor.pending ++ [monitor.fresh]).take
            session.client.queuedCommands.length
          fresh := monitor.fresh + 1
          executed := monitor.executed ++ monitor.executes target request }
    | none => { monitor with connected := false }
  else
    monitor

/-- A run of requests. -/
def run (target : Target) (monitor : Monitor) (requests : List Request) : Monitor :=
  requests.foldl (step target) monitor

/-- The maps accept the whole queue whenever the run comes to an EXEC. -/
def ExecsAccepted (target : Target) : Monitor → List Request → Prop
  | _, [] => True
  | monitor, request :: rest =>
      (request.cmd = .exec →
        QueueAccepted target request.clock 0 request.db monitor.client.queuedCommands) ∧
      ExecsAccepted target (monitor.step target request) rest

/-- The numbers belong to the queued commands. -/
structure Tracks (monitor : Monitor) : Prop where
  wellFormed : monitor.client.WellFormed
  length_pending : monitor.pending.length = monitor.client.queuedCommands.length

/-- No queued command has been executed, and none twice. -/
structure Sound (monitor : Monitor) : Prop extends Tracks monitor where
  nodup : (monitor.executed ++ monitor.pending).Nodup
  lt_fresh : ∀ id ∈ monitor.executed ++ monitor.pending, id < monitor.fresh

variable {target : Target} {monitor : Monitor} {request : Request}

/-- A dispatch of a connected client, as the monitor sees it. -/
theorem step_cases (connected : monitor.connected = true) (wf : monitor.client.WellFormed)
    (target : Target) (request : Request) :
    ∃ outcome session, Transition target request.clock ⟨monitor.client, request.db, 0⟩
        request.cmd outcome session ∧
      monitor.step target request =
        { client := session.client
          connected := !outcome.isPanic
          pending := (monitor.pending ++ [monitor.fresh]).take
            session.client.queuedCommands.length
          fresh := monitor.fresh + 1
          executed := monitor.executed ++ monitor.executes target request } := by
  obtain ⟨outcome, session, dispatched, transition⟩ := dispatch_transition target request.clock 0
    ⟨monitor.client, request.db, 0⟩ wf request.cmd
  refine ⟨outcome, session, transition, ?_⟩
  rw [step, if_pos connected, dispatched]

/-- The queue never grows by more than one command. -/
theorem length_queue_le {clock : ℕ → Instant} {session session' : Session} {cmd : Command}
    {outcome : Outcome String RespType}
    (transition : Transition target clock session cmd outcome session') :
    session'.client.queuedCommands.length ≤ session.client.queuedCommands.length + 1 := by
  cases transition with
  | queued => simp
  | nested | plain => exact Nat.le_succ _
  | opened | dropped | committed => exact Nat.zero_le _
  | refused => rw [client_advanceAll]; exact Nat.le_succ _

theorem Tracks.step (tracks : monitor.Tracks) (target : Target) (request : Request) :
    (monitor.step target request).Tracks := by
  by_cases connected : monitor.connected = true
  · obtain ⟨outcome, session, transition, stepped⟩ :=
      step_cases connected tracks.wellFormed target request
    rw [stepped]
    constructor
    · exact transition.wellFormed tracks.wellFormed
    · have grown : session.client.queuedCommands.length ≤
          monitor.client.queuedCommands.length + 1 := length_queue_le transition
      rw [List.length_take, List.length_append, List.length_singleton, tracks.length_pending]
      exact Nat.min_eq_left grown
  · rw [Monitor.step, if_neg connected]
    exact tracks

/-- An EXEC of a connected client closes the transaction exactly when the queue
is accepted. -/
theorem client_step_exec_iff (connected : monitor.connected = true)
    (wf : monitor.client.WellFormed) (target : Target) (request : Request)
    (exec : request.cmd = .exec) :
    (monitor.step target request).client = Client.new ↔
      QueueAccepted target request.clock 0 request.db monitor.client.queuedCommands := by
  rcases step_cases connected wf target request with ⟨outcome, session, transition, stepped⟩
  rw [stepped]
  rw [exec] at transition
  cases transition with
  | queued inside plain => exact absurd trivial plain
  | plain outside plain => exact absurd trivial plain
  | committed accepted => exact iff_of_true rfl accepted
  | refused refusal part =>
      refine iff_of_false (fun closed => refusal ?_) refusal
      rw [client_advanceAll] at closed
      change monitor.client = Client.new at closed
      rw [show (Session.client ⟨monitor.client, request.db, 0⟩) = Client.new from closed]
      trivial

/-- An EXEC whose queue is accepted executes all of it. -/
theorem executes_of_accepted (tracks : monitor.Tracks) (exec : request.cmd = .exec)
    (accepted : QueueAccepted target request.clock 0 request.db monitor.client.queuedCommands) :
    monitor.executes target request = monitor.pending := by
  have count := (executeQueue_of_accepted tracks.wellFormed.plain 0 []
    ⟨monitor.client, request.db, 0⟩ accepted).2
  simp only [executes, exec, count, ← tracks.length_pending, List.take_length]

theorem executes_of_ne (other : request.cmd ≠ .exec) : monitor.executes target request = [] := by
  unfold executes
  split
  next exec => exact absurd exec other
  next => rfl

/-- As long as every EXEC finds its queue accepted, nothing is executed twice. -/
theorem Sound.step (sound : monitor.Sound) (target : Target)
    (accepted : request.cmd = .exec →
      QueueAccepted target request.clock 0 request.db monitor.client.queuedCommands) :
    (monitor.step target request).Sound := by
  by_cases connected : monitor.connected = true
  · have tracks := sound.toTracks.step target request
    have closes := client_step_exec_iff connected sound.wellFormed target request
    rcases step_cases connected sound.wellFormed target request with ⟨outcome, session, -, stepped⟩
    rw [stepped] at tracks closes ⊢
    have all : (monitor.executed ++ monitor.pending ++ [monitor.fresh]).Nodup := by
      refine List.nodup_append.mpr ⟨sound.nodup, List.nodup_singleton _, ?_⟩
      rintro id old _ new rfl
      exact (sound.lt_fresh id old).ne (List.mem_singleton.mp new)
    have part : (monitor.executed ++ monitor.executes target request ++
        (monitor.pending ++ [monitor.fresh]).take session.client.queuedCommands.length).Sublist
          (monitor.executed ++ monitor.pending ++ [monitor.fresh]) := by
      by_cases exec : request.cmd = .exec
      · have closed : session.client = Client.new := (closes exec).mpr (accepted exec)
        rw [executes_of_accepted sound.toTracks exec (accepted exec), closed]
        simp [Client.new]
      · rw [executes_of_ne exec, List.append_nil, List.append_assoc]
        exact (List.take_sublist _ _).append_left _
    refine ⟨tracks, part.nodup all, fun id member => ?_⟩
    rcases List.mem_append.mp (part.subset member) with old | new
    · exact (sound.lt_fresh id old).trans (Nat.lt_succ_self _)
    · rw [List.mem_singleton.mp new]
      exact Nat.lt_succ_self _
  · rw [Monitor.step, if_neg connected]
    exact sound

theorem sound_new : new.Sound :=
  ⟨⟨Client.wellFormed_of_queue_nil false, rfl⟩, List.nodup_nil, nofun⟩

theorem Tracks.run (tracks : monitor.Tracks) (target : Target) (requests : List Request) :
    (monitor.run target requests).Tracks := by
  induction requests generalizing monitor with
  | nil => exact tracks
  | cons request rest ih => exact ih (tracks.step target request)

theorem Sound.run (sound : monitor.Sound) (target : Target) {requests : List Request}
    (accepted : ExecsAccepted target monitor requests) : (monitor.run target requests).Sound := by
  induction requests generalizing monitor with
  | nil => exact sound
  | cons request rest ih => exact ih (sound.step target accepted.1) accepted.2

/-- Over every run in which the maps accept the queue at each EXEC, a queued
command is executed at most once.  After an EXEC, the client is outside the
transaction with an empty queue if and only if the maps accepted its queue. -/
theorem executed_at_most_once (target : Target) :
    (∀ requests, ExecsAccepted target new requests →
      (new.run target requests).executed.Nodup) ∧
    ∀ requests request, (new.run target requests).connected = true → request.cmd = .exec →
      (((new.run target requests).step target request).client = Client.new ↔
        QueueAccepted target request.clock 0 request.db
          (new.run target requests).client.queuedCommands) := by
  constructor
  · intro requests accepted
    exact (sound_new.run target accepted).nodup.sublist (List.sublist_append_left _ _)
  · intro requests request connected exec
    have tracks := sound_new.toTracks.run target requests
    exact client_step_exec_iff connected tracks.wellFormed target request exec

/-- One transaction that is accepted as a whole. -/
theorem executed_at_most_once_push :
    let requests : List Request := [⟨.multi, DB.newInMemory, fun _ => 0⟩,
      ⟨.rpush "l" ["a"], DB.newInMemory, fun _ => 0⟩, ⟨.exec, DB.newInMemory, fun _ => 0⟩]
    (new.run ⟨true, 24⟩ requests).executed = [1] ∧
      (new.run ⟨true, 24⟩ requests).executed.Nodup := by
  refine ⟨by decide, (executed_at_most_once ⟨true, 24⟩).1 _ ⟨nofun, nofun, fun _ => ?_, trivial⟩⟩
  exact ⟨fun _ => nofun, trivial⟩

/-- The queue holds a push and a GET of the list.  The GET is refused, EXEC fails
and leaves the transaction open; a second EXEC pushes once more. -/
theorem exec_repeats_queue :
    let pushed : DB := ⟨Finmap.singleton "l" (.list [.string "a"]), ∅⟩
    let requests : List Request := [⟨.multi, DB.newInMemory, fun _ => 0⟩,
      ⟨.rpush "l" ["a"], DB.newInMemory, fun _ => 0⟩, ⟨.get "l", DB.newInMemory, fun _ => 0⟩,
      ⟨.exec, DB.newInMemory, fun _ => 0⟩, ⟨.exec, pushed, fun _ => 0⟩]
    let final := (requests.map Request.cmd).foldlM
      (fun session cmd => (dispatch ⟨true, 24⟩ (fun _ => 0) 2 session cmd).map Prod.snd)
      ⟨Client.new, DB.newInMemory, 0⟩
    ¬(new.run ⟨true, 24⟩ requests).executed.Nodup ∧
      (new.run ⟨true, 24⟩ requests).client = ⟨true, [.rpush "l" ["a"], .get "l"]⟩ ∧
        final.bind (·.db.data.lookup "l") = some (.list [.string "a", .string "a"]) := by
  decide +kernel

end Monitor

end Ember
