import Ember.Command.Command
import Ember.Database.Sequential

/-!
# The dispatcher

A client outside a transaction has its commands executed; inside one they are
queued until EXEC runs the queue.  Every executed command that works on the maps
does so at its own clock reading.
-/

namespace Ember

open Ember.Base Ember.Database Ember.Resp

universe u

/-- The transaction state of a connection. -/
structure Client where
  inTransaction : Bool
  queuedCommands : List Command
  deriving DecidableEq

/-- A client outside of a transaction. -/
def Client.new : Client :=
  ⟨false, []⟩

/-- What a dispatch works on: the client, the maps, and the number of commands
that have read the clock. -/
structure Session where
  client : Client
  db : DB
  tick : ℕ

namespace Dispatcher

/-- The reply to a database operation, whose error is wrapped. -/
def replyWith {α : Type u} (reply : α → Outcome String RespType) :
    Outcome String α → Outcome String RespType
  | .ok value => reply value
  | .error e => .error ("Failed to execute command. E: " ++ e)
  | .panic => .panic

/-- The reply of the commands that only write. -/
def simpleOk : Unit → Outcome String RespType :=
  fun _ => .ok (.simpleString "Ok")

/-- The reply to GET, which has no form for lists. -/
def replyGet : RedisObject → Outcome String RespType
  | .string s => .ok (.bulkString s)
  | .list _ => .error "Wrong data type. Expected String, got List."

/-- The reply to LRANGE; items that are not strings are left out. -/
def replyLrange : RedisObject → Outcome String RespType
  | .list list => .ok (.array (list.filterMap fun
      | .string s => some (.bulkString s)
      | .list _ => none))
  | .string s => .ok (.bulkString s)

/-- The map calls and the reply of a command that does not control the
transaction.  A snapshot is written by a task of its own, so that SAVE itself
leaves the maps alone. -/
def operation (target : Target) : Command → Option (DbProg (Outcome String RespType))
  | .ping => some (return .ok (.simpleString "Pong"))
  | .echo msg => some (return .ok (.bulkString msg))
  | .set key value expiresIn => some do
      return replyWith simpleOk (← DB.set key (.string value) expiresIn)
  | .get key => some do
      return replyWith replyGet (← DB.get key)
  | .delete key => some do
      return replyWith (fun _ => .ok (.bulkString "Ok")) (← DB.delete key)
  | .expire key expiresAt option => some do
      return replyWith simpleOk (← DB.expire key expiresAt option)
  | .lpush key vals => some do
      return replyWith simpleOk (← DB.lpush key (vals.map .string))
  | .rpush key vals => some do
      return replyWith simpleOk (← DB.rpush key (vals.map .string))
  | .lrange key start stop => some do
      return replyWith replyLrange (← DB.lrange target key start stop)
  | .save => some (return .ok (.simpleString "Ok"))
  | .multi | .discard | .exec => none

/-- A command on the maps, at the next clock reading. -/
def perform (clock : ℕ → Instant) (session : Session)
    (prog : DbProg (Outcome String RespType)) : Outcome String RespType × Session :=
  let (reply, db) := DB.exec (clock session.tick) prog session.db
  (reply, { session with db, tick := session.tick + 1 })

/-- The loop of EXEC over its copy of the queue.  A command that fails ends it at
once, with the transaction still open. -/
def executeQueue (execute : Session → Command → Option (Outcome String RespType × Session)) :
    List Command → List RespType → Session → Option (Outcome String RespType × Session)
  | [], replies, session => some (.ok (.array replies), { session with client := ⟨false, []⟩ })
  | c :: rest, replies, session =>
      match execute session c with
      | some (.ok rep, session) => executeQueue execute rest (replies ++ [rep]) session
      | some (.error e, session) =>
          some (.error ("Failed to execute queued commands. E: " ++ e), session)
      | some (.panic, session) => some (.panic, session)
      | none => none

/-- Execution of a command, with at most `depth` nested calls: a queue that holds
EXEC itself would never end. -/
def executeCommand (target : Target) (clock : ℕ → Instant) :
    (depth : ℕ) → Session → Command → Option (Outcome String RespType × Session)
  | 0, _, _ => none
  | depth + 1, session, cmd =>
      match cmd with
      | .multi => some (.ok (.simpleString "Ok"), { session with client := ⟨true, []⟩ })
      | .discard => some (.ok (.simpleString "Ok"), { session with client := ⟨false, []⟩ })
      | .exec =>
          executeQueue (executeCommand target clock depth) session.client.queuedCommands [] session
      | cmd => (operation target cmd).map (perform clock session)

/-- Dispatch a command: inside a transaction everything but EXEC and DISCARD is
queued or refused. -/
def dispatch (target : Target) (clock : ℕ → Instant) (depth : ℕ) (session : Session)
    (cmd : Command) : Option (Outcome String RespType × Session) :=
  if session.client.inTransaction then
    match cmd with
    | .multi => some (.error "Can not nest multi", session)
    | .exec | .discard => executeCommand target clock depth session cmd
    | cmd => some (.ok (.simpleString "QUEUED"), { session with client :=
        { session.client with queuedCommands := session.client.queuedCommands ++ [cmd] } })
  else
    executeCommand target clock depth session cmd

end Dispatcher

end Ember
