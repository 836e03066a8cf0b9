import Ember.Command.Transaction
import Ember.Database.TtlStore

/-!
# Runs of the server

Any number of connections dispatch commands to the shared maps, and the cleanup
cycle runs in between.  What every accepted or refused command and every cleanup
preserves holds of all maps that a run can produce.
-/

namespace Ember

open Ember.Base Ember.Database Ember.Resp Dispatcher

/-- The shared maps and the transaction states of the connections. -/
structure Server where
  db : DB
  clients : ℕ → Client

namespace Server

/-- A server that has not been loaded from disk. -/
def new : Server :=
  ⟨DB.newInMemory, fun _ => Client.new⟩

/-- The steps of a run. -/
inductive Event where
  | dispatch (id : ℕ) (cmd : Command) (clock : ℕ → Instant)
  | cleanup (run : CleanupRun)

/-- One step.  A panic ends the connection, whose number may be given to a new
one. -/
def step (target : Target) (server : Server) : Event → Server
  | .dispatch id cmd clock =>
      match Dispatcher.dispatch target clock 2 ⟨server.clients id, server.db, 0⟩ cmd with
      | some (outcome, session) =>
          ⟨session.db, Function.update server.clients id
            (if outcome.isPanic then Client.new else session.client)⟩
      | none => server
  | .cleanup run => { server with db := server.db.cleanup run }

/-- A run of steps. -/
def run (target : Target) (server : Server) (events : List Event) : Server :=
  events.foldl (step target) server

/-- The states a new server can come to. -/
def Reachable (target : Target) (server : Server) : Prop :=
  ∃ events, new.run target events = server

/-- A step dispatches only commands with a given property. -/
def Event.Within (allowed : Command → Prop) : Event → Prop
  | .dispatch _ cmd _ => allowed cmd
  | .cleanup _ => True

/-- A property of the maps, together with one of the queued commands. -/
structure Keeps (holds : DB → Prop) (allowed : Command → Prop) (server : Server) : Prop where
  db : holds server.db
  clients : ∀ id, (server.clients id).WellFormed ∧
    ∀ c ∈ (server.clients id).queuedCommands, allowed c

section Invariants

variable {target : Target} {holds : DB → Prop} {allowed : Command → Prop}

theorem holds_advanceAll {clock : ℕ → Instant}
    (effects : ∀ now db c, ¬c.Controls → allowed c → holds db → holds (effect target now db c).2)
    {commands : List Command} (plain : ∀ c ∈ commands, ¬c.Controls)
    (every : ∀ c ∈ commands, allowed c) {session : Session} (start : holds session.db) :
    holds (advanceAll target clock session commands).db := by
  induction commands generalizing session with
  | nil => exact start
  | cons c rest ih =>
      rcases List.forall_mem_cons.mp plain with ⟨plainHead, plainRest⟩
      rcases List.forall_mem_cons.mp every with ⟨allowedHead, allowedRest⟩
      exact ih plainRest allowedRest (effects _ _ c plainHead allowedHead start)

/-- What the effects of allowed commands preserve, a dispatch preserves. -/
theorem holds_transition {clock : ℕ → Instant} {session session' : Session} {cmd : Command}
    {outcome : Outcome String RespType}
    (effects : ∀ now db c, ¬c.Controls → allowed c → holds db → holds (effect target now db c).2)
    (transition : Transition target clock session cmd outcome session')
    (wf : session.client.WellFormed) (queued : ∀ c ∈ session.client.queuedCommands, allowed c)
    (new : allowed cmd) (start : holds session.db) :
    holds session'.db ∧ ∀ c ∈ session'.client.queuedCommands, allowed c := by
  cases transition with
  | queued inside plain =>
      refine ⟨start, fun c member => ?_⟩
      rcases List.mem_append.mp member with old | last
      · exact queued c old
      · exact List.mem_singleton.mp last ▸ new
  | nested => exact ⟨start, queued⟩
  | opened | dropped => exact ⟨start, nofun⟩
  | committed accepted => exact ⟨holds_advanceAll effects wf.plain queued start, nofun⟩
  | refused refusal part =>
      refine ⟨holds_advanceAll effects (fun c member => wf.plain c (part.subset member))
        (fun c member => queued c (part.subset member)) start, ?_⟩
      rwa [client_advanceAll]
  | plain outside plain => exact ⟨effects _ _ cmd plain new start, queued⟩

theorem Keeps.step {server : Server} (keeps : Keeps holds allowed server)
    (effects : ∀ now db c, ¬c.Controls → allowed c → holds db → holds (effect target now db c).2)
    (cleanup : ∀ now db db', DB.Reaped now db db' → holds db → holds db') {event : Event}
    (within : event.Within allowed) : Keeps holds allowed (server.step target event) := by
  cases event with
  | cleanup run =>
      exact ⟨cleanup run.stop _ _ (DB.cleanup_reaped server.db run) keeps.db, keeps.clients⟩
  | dispatch id cmd clock =>
      rcases keeps.clients id with ⟨wf, queue⟩
      obtain ⟨outcome, session, dispatched, transition⟩ := dispatch_transition target clock 0
        ⟨server.clients id, server.db, 0⟩ wf cmd
      rcases holds_transition effects transition wf queue within keeps.db with ⟨db, queue'⟩
      simp only [Server.step, dispatched]
      refine ⟨db, (Function.forall_update_iff server.clients fun _ client =>
        client.WellFormed ∧ ∀ c ∈ client.queuedCommands, allowed c).mpr
          ⟨?_, fun id' _ => keeps.clients id'⟩⟩
      split
      · exact ⟨Client.wellFormed_of_queue_nil false, nofun⟩
      · exact ⟨transition.wellFormed wf, queue'⟩

/-- A property of the maps that the effects of allowed commands and the cleanup
preserve holds throughout the runs that dispatch only allowed commands. -/
theorem holds_run (start : holds DB.newInMemory)
    (effects : ∀ now db c, ¬c.Controls → allowed c → holds db → holds (effect target now db c).2)
    (cleanup : ∀ now db db', DB.Reaped now db db' → holds db → holds db') {events : List Event}
    (within : ∀ event ∈ events, event.Within allowed) : holds (new.run target events).db := by
  suffices keeps : Keeps holds allowed (new.run target events) from keeps.db
  have initial : Keeps holds allowed new :=
    ⟨start, fun _ => ⟨Client.wellFormed_of_queue_nil false, nofun⟩⟩
  generalize new = server at initial
  induction events generalizing server with
  | nil => exact initial
  | cons event rest ih =>
      rcases List.forall_mem_cons.mp within with ⟨first, others⟩
      exact ih others _ (initial.step effects cleanup first)

/-- The same for all commands. -/
theorem holds_of_reachable (start : holds DB.newInMemory)
    (effects : ∀ now db c, ¬c.Controls → holds db → holds (effect target now db c).2)
    (cleanup : ∀ now db db', DB.Reaped now db db' → holds db → holds db') {server : Server}
    (reachable : Reachable target server) : holds server.db := by
  rcases reachable with ⟨events, rfl⟩
  have every : ∀ event ∈ events, event.Within fun _ => True := by
    intro event _
    cases event <;> trivial
  exact holds_run start (fun now db c plain _ => effects now db c plain) cleanup every

end Invariants

end Server

end Ember
