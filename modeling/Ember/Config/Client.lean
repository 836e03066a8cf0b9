import Ember.Base.BufWriter
import Ember.Command.Dispatcher
import Ember.Resp.Parser

/-!
# Serving a connection

The loop that reads from a socket, executes every complete frame in its buffer
and writes the replies.  It is written once, over a host that says what a frame
does, how replies are written and what becomes of the connection when that
fails; the monad of the host is where the loop is left.  The socket is the list
of what the attempts to read from it give, after which the peer has closed it.

A `Connection` has a socket that takes all replies it is handed.  What a frame
does is still left open there, and `Client.handle` is one case.
-/

namespace Ember

open Ember.Base Ember.Database Ember.Resp

universe u v

/-- The number of frames after which the replies are sent although more frames
are waiting. -/
def maxPipelineDepth : ℕ := 1000

/-- What an attempt to read from the socket gives.  Having read no bytes means the
end of the stream. -/
inductive ReadEvent where
  | bytes (chunk : List UInt8)
  | wouldBlock
  | failed
  deriving DecidableEq

/-- The bytes that were received but not consumed, the writer of the replies, and
the state on which frames work. -/
structure Link (W : Type) (S : Type u) where
  buf : List UInt8
  writer : W
  state : S

/-- How a connection ends.  A panic drops the replies that were not sent. -/
inductive Exit where
  | closed
  | panicked
  deriving DecidableEq

/-- What a round of the loop over the frames comes to: it goes on, or there is no
whole frame, or malformed bytes have taken the rest of the buffer with them, or the
task panics. -/
inductive Turn (C : Type u) where
  | again (pipelineCount : ℕ) (conn : C)
  | waiting
  | cleared (conn : C)
  | panicked (conn : C)

/-- The result of the loop over the frames in the buffer, and whether it consumed
any. -/
inductive Pass (C : Type u) where
  | done (madeProgress : Bool) (conn : C)
  | panicked (conn : C)

/-- The connection at the end of the loop. -/
def Pass.conn {C : Type u} : Pass C → C
  | done _ conn | panicked conn => conn

/-- The connection after an attempt to read, unless that ends it. -/
def Link.receive {W : Type} {S : Type u} (conn : Link W S) : ReadEvent → Option (Link W S)
  | .bytes [] => none
  | .bytes chunk => some { conn with buf := conn.buf ++ chunk }
  | .wouldBlock => some conn
  | .failed => none

/-- What the loop is run on.  The five ways to write differ in what follows when the
socket fails: a reply that cannot be written ends the connection and so do replies that
cannot be sent behind the loop over the frames; when they cannot be sent between two
frames the outer loop ends; and an error that cannot be written is ignored, as is a
failure to send it or to send the last replies. -/
structure Host (m : Type u → Type v) (W : Type) (S : Type u) where
  target : Target
  serve : RespType → S → m (Outcome String RespType × S)
  answer : RespType → Link W S → m (Link W S)
  refuse : RespType → Link W S → m (Link W S)
  relieve : Link W S → m (Link W S)
  send : Link W S → m (Link W S)
  flush : Link W S → m (Link W S)
  buffered : W → Bool

namespace Host

variable {m : Type u → Type v} [Monad m] {W : Type} {S : Type u} (host : Host m W S)

/-- One round of the inner loop.  A refused frame is answered without looking at the
number of frames since the last flush. -/
def frame (pipelineCount : ℕ) (conn : Link W S) : m (Turn (Link W S)) :=
  if conn.buf = [] then
    return .waiting
  else
    match Parser.parse host.target conn.buf with
    | .ok (resp, consumed) => do
        match ← host.serve resp conn.state with
        | (.ok res, state) =>
            let conn ← host.answer res ⟨conn.buf.drop consumed, conn.writer, state⟩
            if maxPipelineDepth ≤ pipelineCount + 1 then
              return .again 0 (← host.relieve conn)
            else
              return .again (pipelineCount + 1) conn
        | (.error e, state) =>
            return .again (pipelineCount + 1)
              (← host.refuse (.simpleError e) ⟨conn.buf.drop consumed, conn.writer, state⟩)
        | (.panic, state) => return .panicked ⟨conn.buf.drop consumed, conn.writer, state⟩
    | .error .incomplete => return .waiting
    | .error (.invalid msg) => do
        let conn ← host.flush (← host.refuse (.simpleError msg) conn)
        return .cleared { conn with buf := [] }
    | .panic => return .panicked conn

/-- The inner loop, over the frames in the buffer.  Every frame takes at least one
byte, which bounds the number of rounds. -/
def drain : (fuel pipelineCount : ℕ) → (madeProgress : Bool) → Link W S → m (Pass (Link W S))
  | 0, _, madeProgress, conn => return .done madeProgress conn
  | fuel + 1, pipelineCount, madeProgress, conn => do
      match ← host.frame pipelineCount conn with
      | .again pipelineCount conn => drain fuel pipelineCount true conn
      | .waiting => return .done madeProgress conn
      | .cleared conn => return .done madeProgress conn
      | .panicked conn => return .panicked conn

/-- What follows a read: the frames in the buffer are executed, and the replies
sent if there was a frame. -/
def serveBuffered (conn : Link W S) : m (Pass (Link W S)) := do
  match ← host.drain conn.buf.length 0 false conn with
  | .done madeProgress conn =>
      if madeProgress ∧ host.buffered conn.writer then
        return .done madeProgress (← host.send conn)
      else
        return .done madeProgress conn
  | .panicked conn => return .panicked conn

/-- The outer loop.  With an empty buffer the task sleeps until there is something
to read; otherwise it goes on at once, also when the read would block. -/
def handle : List ReadEvent → Link W S → m (Exit × Link W S)
  | [], conn => return (.closed, ← host.flush conn)
  | event :: events, conn =>
      if conn.buf = [] ∧ event = .wouldBlock then
        handle events conn
      else
        match conn.receive event with
        | none => return (.closed, ← host.flush conn)
        | some conn => do
            match ← host.serveBuffered conn with
            | .done _ conn => handle events conn
            | .panicked conn => return (.panicked, conn)

end Host

/-! ## Connections whose socket does not fail -/

/-- A connection with a writer that hands on everything in time. -/
abbrev Connection (S : Type u) := Link (BufWriter UInt8) S

/-- The result of the loop over the frames of such a connection. -/
abbrev Drained (S : Type u) := Pass (Connection S)

namespace Connection

variable {S : Type u}

/-- A connection that has received nothing yet. -/
def new (spill : Spill UInt8) (state : S) : Connection S :=
  ⟨[], BufWriter.new spill, state⟩

/-- Write a reply, which may stay in the buffer. -/
def reply (conn : Connection S) (resp : RespType) : Connection S :=
  { conn with writer := resp.writeTo BufWriter.writeAll conn.writer }

/-- Send all replies. -/
def flush (conn : Connection S) : Connection S :=
  { conn with writer := conn.writer.flush }

section Host

variable {m : Type u → Type v} [Monad m]

/-- No write fails. -/
def host (target : Target) (serve : RespType → S → m (Outcome String RespType × S)) :
    Host m (BufWriter UInt8) S where
  target := target
  serve := serve
  answer resp conn := return Connection.reply conn resp
  refuse resp conn := return Connection.reply conn resp
  relieve conn := return Connection.flush conn
  send conn := return Connection.flush conn
  flush conn := return Connection.flush conn
  buffered writer := !writer.buffer.isEmpty

variable (target : Target) (serve : RespType → S → m (Outcome String RespType × S))

/-- The inner loop in full. -/
theorem drain_host [LawfulMonad m] (fuel pipelineCount : ℕ) (madeProgress : Bool)
    (conn : Connection S) :
    (host target serve).drain (fuel + 1) pipelineCount madeProgress conn =
      if conn.buf = [] then
        return .done madeProgress conn
      else
        match Parser.parse target conn.buf with
        | .ok (resp, consumed) => do
            match ← serve resp conn.state with
            | (.ok res, state) =>
                let conn := reply ⟨conn.buf.drop consumed, conn.writer, state⟩ res
                if maxPipelineDepth ≤ pipelineCount + 1 then
                  (host target serve).drain fuel 0 true conn.flush
                else
                  (host target serve).drain fuel (pipelineCount + 1) true conn
            | (.error e, state) =>
                (host target serve).drain fuel (pipelineCount + 1) true
                  (reply ⟨conn.buf.drop consumed, conn.writer, state⟩ (.simpleError e))
            | (.panic, state) => return .panicked ⟨conn.buf.drop consumed, conn.writer, state⟩
        | .error .incomplete => return .done madeProgress conn
        | .error (.invalid msg) =>
            return .done madeProgress { (conn.reply (.simpleError msg)).flush with buf := [] }
        | .panic => return .panicked conn := by
  rw [Host.drain, Host.frame]
  dsimp only [host]
  by_cases empty : conn.buf = []
  · rw [if_pos empty, if_pos empty, pure_bind]
  rw [if_neg empty, if_neg empty]
  cases Parser.parse target conn.buf with
  | ok accepted =>
      rcases accepted with ⟨resp, consumed⟩
      dsimp only
      rw [bind_assoc]
      congr 1
      funext served
      rcases served with ⟨res | e | _, state⟩
      · dsimp only
        by_cases deep : maxPipelineDepth ≤ pipelineCount + 1
        · rw [if_pos deep]
          simp only [pure_bind, if_pos deep]
        · rw [if_neg deep]
          simp only [pure_bind, if_neg deep]
      · simp only [pure_bind]
      · simp only [pure_bind]
  | error reason =>
      cases reason with
      | incomplete => simp only [pure_bind]
      | invalid message => simp only [pure_bind]
  | panic => simp only [pure_bind]

theorem serveBuffered_host [LawfulMonad m] (conn : Connection S) :
    (host target serve).serveBuffered conn = do
      match ← (host target serve).drain conn.buf.length 0 false conn with
      | .done madeProgress conn =>
          return .done madeProgress
            (if madeProgress ∧ conn.writer.buffer ≠ [] then Connection.flush conn else conn)
      | .panicked conn => return .panicked conn := by
  rw [Host.serveBuffered]
  congr 1
  funext drained
  cases drained with
  | done madeProgress conn' =>
      have buffered : ((host target serve).buffered conn'.writer = true) ↔
          conn'.writer.buffer ≠ [] := by
        simp [host]
      by_cases sends : madeProgress ∧ conn'.writer.buffer ≠ []
      · simp only [if_pos sends, if_pos ((and_congr_right fun _ => buffered).mpr sends)]
        exact pure_bind _ _
      · simp only [if_neg sends, if_neg (mt (and_congr_right fun _ => buffered).mp sends)]
  | panicked conn' => rfl

theorem handle_host [LawfulMonad m] (event : ReadEvent) (events : List ReadEvent)
    (conn : Connection S) :
    (host target serve).handle (event :: events) conn =
      if conn.buf = [] ∧ event = .wouldBlock then
        (host target serve).handle events conn
      else
        match conn.receive event with
        | none => return (.closed, conn.flush)
        | some conn => do
            match ← (host target serve).serveBuffered conn with
            | .done _ conn => (host target serve).handle events conn
            | .panicked conn => return (.panicked, conn) := by
  rw [Host.handle]
  split
  · rfl
  · cases conn.receive event with
    | none => exact pure_bind _ _
    | some received =>
        dsimp only
        congr 1
        funext served
        cases served <;> rfl

end Host

/-! ## Connections that have everything for themselves -/

end Connection

/-- What a frame does: it is answered, or refused with an error, or the task
panics. -/
abbrev Serve (S : Type u) := RespType → S → Outcome String RespType × S

namespace Connection

variable {S : Type u} (target : Target) (serve : Serve S)

/-- One round of the loop over the frames. -/
def frame (pipelineCount : ℕ) (conn : Connection S) : Turn (Connection S) :=
  (host target serve : Host Id _ S).frame pipelineCount conn

/-- The inner loop, for frames that are served by a function. -/
def drain (fuel pipelineCount : ℕ) (madeProgress : Bool) (conn : Connection S) : Drained S :=
  (host target serve : Host Id _ S).drain fuel pipelineCount madeProgress conn

/-- What follows a read. -/
def serveBuffered (conn : Connection S) : Drained S :=
  (host target serve : Host Id _ S).serveBuffered conn

/-- The outer loop. -/
def handle (events : List ReadEvent) (conn : Connection S) : Exit × Connection S :=
  (host target serve : Host Id _ S).handle events conn

theorem frame_eq (pipelineCount : ℕ) (conn : Connection S) :
    frame target serve pipelineCount conn =
      if conn.buf = [] then
        .waiting
      else
        match Parser.parse target conn.buf with
        | .ok (resp, consumed) =>
            match serve resp conn.state with
            | (.ok res, state) =>
                let conn := reply ⟨conn.buf.drop consumed, conn.writer, state⟩ res
                if maxPipelineDepth ≤ pipelineCount + 1 then
                  .again 0 conn.flush
                else
                  .again (pipelineCount + 1) conn
            | (.error e, state) =>
                .again (pipelineCount + 1)
                  (reply ⟨conn.buf.drop consumed, conn.writer, state⟩ (.simpleError e))
            | (.panic, state) => .panicked ⟨conn.buf.drop consumed, conn.writer, state⟩
        | .error .incomplete => .waiting
        | .error (.invalid msg) =>
            .cleared { (conn.reply (.simpleError msg)).flush with buf := [] }
        | .panic => .panicked conn :=
  rfl

theorem drain_succ (fuel pipelineCount : ℕ) (madeProgress : Bool) (conn : Connection S) :
    drain target serve (fuel + 1) pipelineCount madeProgress conn =
      if conn.buf = [] then
        .done madeProgress conn
      else
        match Parser.parse target conn.buf with
        | .ok (resp, consumed) =>
            match serve resp conn.state with
            | (.ok res, state) =>
                let conn := reply ⟨conn.buf.drop consumed, conn.writer, state⟩ res
                if maxPipelineDepth ≤ pipelineCount + 1 then
                  drain target serve fuel 0 true conn.flush
                else
                  drain target serve fuel (pipelineCount + 1) true conn
            | (.error e, state) =>
                drain target serve fuel (pipelineCount + 1) true
                  (reply ⟨conn.buf.drop consumed, conn.writer, state⟩ (.simpleError e))
            | (.panic, state) => .panicked ⟨conn.buf.drop consumed, conn.writer, state⟩
        | .error .incomplete => .done madeProgress conn
        | .error (.invalid msg) =>
            .done madeProgress { (conn.reply (.simpleError msg)).flush with buf := [] }
        | .panic => .panicked conn :=
  @drain_host _ Id _ target serve _ fuel pipelineCount madeProgress conn

theorem drain_eq_frame (fuel pipelineCount : ℕ) (madeProgress : Bool) (conn : Connection S) :
    drain target serve (fuel + 1) pipelineCount madeProgress conn =
      match frame target serve pipelineCount conn with
      | .again pipelineCount conn => drain target serve fuel pipelineCount true conn
      | .waiting => .done madeProgress conn
      | .cleared conn => .done madeProgress conn
      | .panicked conn => .panicked conn := by
  rw [drain, Host.drain, frame]
  cases (host target serve : Host Id _ S).frame pipelineCount conn <;> rfl

theorem serveBuffered_eq (conn : Connection S) :
    serveBuffered target serve conn =
      match drain target serve conn.buf.length 0 false conn with
      | .done madeProgress conn =>
          .done madeProgress
            (if madeProgress ∧ conn.writer.buffer ≠ [] then conn.flush else conn)
      | .panicked conn => .panicked conn :=
  @serveBuffered_host _ Id _ target serve _ conn

@[simp]
theorem handle_nil (conn : Connection S) : handle target serve [] conn = (.closed, conn.flush) :=
  rfl

theorem handle_cons (event : ReadEvent) (events : List ReadEvent) (conn : Connection S) :
    handle target serve (event :: events) conn =
      if conn.buf = [] ∧ event = .wouldBlock then
        handle target serve events conn
      else
        match conn.receive event with
        | none => (.closed, conn.flush)
        | some conn =>
            match serveBuffered target serve conn with
            | .done _ conn => handle target serve events conn
            | .panicked conn => (.panicked, conn) :=
  @handle_host _ Id _ target serve _ event events conn

/-! ## What all writes keep -/

section Keeps

variable {P : BufWriter UInt8 → Prop} (writes : ∀ data w, P w → P (w.writeAll data))
  (flushes : ∀ w, P w → P w.flush) {target serve}

include writes

theorem keeps_reply {conn : Connection S} (holds : P conn.writer) (resp : RespType) :
    P (conn.reply resp).writer :=
  @RespType.writeTo_invariant _ _ (fun w _ => P w) (fun {data w _} => writes data w) resp
    conn.writer [] holds

include flushes

theorem keeps_drain {fuel pipelineCount : ℕ} {madeProgress : Bool} {conn : Connection S}
    (holds : P conn.writer) :
    P (drain target serve fuel pipelineCount madeProgress conn).conn.writer := by
  induction fuel generalizing pipelineCount madeProgress conn with
  | zero => exact holds
  | succ fuel ih =>
      have replied (resp : RespType) (buf : List UInt8) (state : S) :
          P (reply ⟨buf, conn.writer, state⟩ resp).writer := keeps_reply writes holds resp
      rw [drain_succ]
      split
      · exact holds
      · split
        · split
          · dsimp only
            split
            · exact ih (flushes _ (replied ..))
            · exact ih (replied ..)
          · exact ih (replied ..)
          · exact holds
        · exact holds
        · exact flushes _ (replied ..)
        · exact holds

theorem keeps_serveBuffered {conn : Connection S} (holds : P conn.writer) :
    P (serveBuffered target serve conn).conn.writer := by
  have drained : P (drain target serve conn.buf.length 0 false conn).conn.writer :=
    keeps_drain writes flushes holds
  rw [serveBuffered_eq]
  cases ended : drain target serve conn.buf.length 0 false conn with
  | done madeProgress conn' =>
      rw [ended] at drained
      dsimp only
      split
      · exact flushes _ drained
      · exact drained
  | panicked conn' =>
      rw [ended] at drained
      exact drained

/-- What all writes keep holds of the writer at the end. -/
theorem keeps_handle {events : List ReadEvent} {conn : Connection S} (holds : P conn.writer) :
    P (handle target serve events conn).2.writer := by
  induction events generalizing conn with
  | nil => exact flushes _ holds
  | cons event events ih =>
      rw [handle_cons]
      split
      · exact ih holds
      · cases got : conn.receive event with
        | none => exact flushes _ holds
        | some received =>
            have same : received.writer = conn.writer := by
              rcases event with (_ | _) | _ | _ <;> cases got <;> rfl
            have buffered : P (serveBuffered target serve received).conn.writer :=
              keeps_serveBuffered writes flushes (same ▸ holds)
            dsimp only
            cases served : serveBuffered target serve received with
            | done madeProgress conn' =>
                rw [served] at buffered
                exact ih buffered
            | panicked conn' =>
                rw [served] at buffered
                exact buffered

end Keeps

end Connection

namespace Client

/-- A frame is turned into a command, which is then dispatched. -/
def serve (target : Target) (clock : ℕ → Instant) : Serve Session := fun resp session =>
  match Command.extractCommand target (clock session.tick) resp with
  | .ok cmd =>
      (Dispatcher.dispatch target clock 2 { session with tick := session.tick + 1 } cmd).getD
        (.panic, session)
  | .error e => (.error e, session)
  | .panic => (.panic, session)

/-- A connection of a new client. -/
def handle (spill : Spill UInt8) (target : Target) (clock : ℕ → Instant) (events : List ReadEvent)
    (db : DB) : Exit × Connection Session :=
  Connection.handle target (serve target clock) events (Connection.new spill ⟨new, db, 0⟩)

end Client

end Ember
