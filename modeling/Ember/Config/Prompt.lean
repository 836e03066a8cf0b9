import Ember.Config.Requests
import Ember.Config.Yielding

/-!
# No reply is held back

A connection keeps replies in a buffer as long as there are frames to serve.  Whenever it
turns to its socket for more, the buffer is empty: each request that has arrived by then
was answered, and its reply is on the way.  So a client that sends the next request only
after the reply to the last one never waits in vain.
-/

namespace Ember

open Ember.Base Ember.Base.Framing Ember.Resp

/-- The replies to requests that are served one after the other, and the state they
leave, unless one of them panics. -/
def respond {S : Type} (serve : Serve S) : List Incoming → S → Option (List RespType × S)
  | [], state => some ([], state)
  | .frame resp :: rest, state =>
      (answer (serve resp state).1).bind fun reply =>
        (respond serve rest (serve resp state).2).map fun later => (reply :: later.1, later.2)
  | .malformed message :: rest, state =>
      (respond serve rest state).map fun later => (.simpleError message :: later.1, later.2)

section Respond

variable {S : Type} {serve : Serve S} {state middle : S} {first second : List Incoming}
  {replies : List RespType}

theorem respond_append (answered : respond serve first state = some (replies, middle)) :
    respond serve (first ++ second) state =
      (respond serve second middle).map fun later => (replies ++ later.1, later.2) := by
  induction first generalizing state replies with
  | nil =>
      cases answered
      exact Option.map_id'.symm
  | cons request first ih =>
      cases request with
      | frame resp =>
          rcases Option.bind_eq_some_iff.mp answered with ⟨reply, given, rest⟩
          rcases Option.map_eq_some_iff.mp rest with ⟨⟨others, _⟩, later, ⟨⟩⟩
          rw [List.cons_append, respond, given, Option.bind_some, ih later, Option.map_map]
          rfl
      | malformed message =>
          rcases Option.map_eq_some_iff.mp answered with ⟨⟨others, _⟩, later, ⟨⟩⟩
          rw [List.cons_append, respond, ih later, Option.map_map]
          rfl

end Respond

namespace Loop

variable {S : Type} {target : Target} {serve : Serve S} {state : S} {events : List ReadEvent}

/-- The requests that are still to come, with more to read: in the loop over the frames
those in the buffer come first. -/
def remaining (target : Target) (loop : Loop S) (more : List ReadEvent) : List Incoming :=
  match loop.point with
  | .inner _ _ =>
      (requestsIn target loop.conn.buf).1 ++
        (requestsIn target loop.conn.buf).2.elim [] (requests target more)
  | .outer | .behind _ => requests target more loop.conn.buf

/-- There may be replies in the buffer only if a frame was consumed since the last read. -/
def Held : Point → Prop
  | .inner _ madeProgress | .behind madeProgress => madeProgress = true
  | .outer => False

/-- What was read and answered so far. -/
structure Caught (target : Target) (serve : Serve S) (state : S) (events read : List ReadEvent)
    (done : List Incoming) (replies : List RespType) (loop : Loop S) : Prop where
  input : events = read ++ loop.input
  requests : ∀ more, requests target (read ++ more) [] = done ++ loop.remaining target more
  answered : respond serve done state = some (replies, loop.conn.state)
  written : loop.conn.writer.written = replies.flatMap RespType.toBytes
  sent : ¬Held loop.point → loop.conn.writer.buffer = []

theorem caught_start (spill : Spill UInt8) (target : Target) (serve : Serve S) (state : S)
    (events : List ReadEvent) :
    Caught target serve state events [] [] [] ⟨.outer, Connection.new spill state, events⟩ where
  input := rfl
  requests _ := rfl
  answered := rfl
  written := rfl
  sent _ := rfl

/-- What a round of the loop over the frames leads to. -/
inductive FrameRound (target : Target) (serve : Serve S) (madeProgress : Bool)
    (conn : Connection S) : Point → Connection S → Prop
  | waiting (incomplete : Parser.parse target conn.buf = .error .incomplete) :
      FrameRound target serve madeProgress conn (.behind madeProgress) conn
  | served {resp reply : RespType} {consumed : ℕ} {pipelineCount : ℕ} {next : Connection S}
      (accepted : Parser.parse target conn.buf = .ok (resp, consumed))
      (given : answer (serve resp conn.state).1 = some reply)
      (buf : next.buf = conn.buf.drop consumed) (state : next.state = (serve resp conn.state).2)
      (writer : next.writer = (conn.reply reply).writer ∨
        next.writer = (conn.reply reply).writer.flush) :
      FrameRound target serve madeProgress conn (.inner pipelineCount true) next
  | malformed {message : String}
      (invalid : Parser.parse target conn.buf = .error (.invalid message)) :
      FrameRound target serve madeProgress conn (.behind madeProgress)
        { (conn.reply (.simpleError message)).flush with buf := [] }

theorem round_of_goes {pipelineCount : ℕ} {madeProgress : Bool} {conn : Connection S}
    {input : List ReadEvent} {next : Loop S}
    (goes : Goes target serve ⟨.inner pipelineCount madeProgress, conn, input⟩ next) :
    next.input = input ∧ FrameRound target serve madeProgress conn next.point next.conn := by
  rcases goes with ⟨mark, taken⟩
  have round := frameStep_of_step taken
  rw [frameStep, Connection.frame_eq] at round
  by_cases empty : conn.buf = []
  · rw [if_pos empty] at round
    cases round
    exact ⟨rfl, .waiting (by rw [empty]; rfl)⟩
  rw [if_neg empty] at round
  cases verdict : Parser.parse target conn.buf with
  | ok accepted =>
      rcases accepted with ⟨resp, consumed⟩
      simp only [verdict] at round
      cases served : serve resp conn.state with
      | mk outcome state =>
      have same : state = (serve resp conn.state).2 := by rw [served]
      cases outcome with
      | ok res =>
          have given : answer (serve resp conn.state).1 = some res := by rw [served]; rfl
          by_cases deep : maxPipelineDepth ≤ pipelineCount + 1
          · simp only [served, if_pos deep] at round
            cases round
            exact ⟨rfl, .served verdict given rfl same (Or.inr rfl)⟩
          · simp only [served, if_neg deep] at round
            cases round
            exact ⟨rfl, .served verdict given rfl same (Or.inl rfl)⟩
      | error e =>
          have given : answer (serve resp conn.state).1 = some (.simpleError e) := by
            rw [served]; rfl
          simp only [served] at round
          cases round
          exact ⟨rfl, .served verdict given rfl same (Or.inl rfl)⟩
      | panic =>
          simp only [served] at round
          cases round
  | error reason =>
      simp only [verdict] at round
      cases reason with
      | incomplete =>
          cases round
          exact ⟨rfl, .waiting verdict⟩
      | invalid message =>
          cases round
          exact ⟨rfl, .malformed verdict⟩
  | panic =>
      simp only [verdict] at round
      cases round

/-- One more request is answered. -/
theorem respond_snoc {done : List Incoming} {replies : List RespType} {middle last : S}
    {request : Incoming} {reply : RespType}
    (answered : respond serve done state = some (replies, middle))
    (given : respond serve [request] middle = some ([reply], last)) :
    respond serve (done ++ [request]) state = some (replies ++ [reply], last) := by
  rw [respond_append answered, given]
  rfl

section Step

variable {read : List ReadEvent} {done : List Incoming} {replies : List RespType} {loop : Loop S}
  {conn : Connection S} {input : List ReadEvent} {next : Loop S}

theorem caught_read (caught : Caught target serve state events read done replies
      ⟨.outer, conn, input⟩) (goes : Goes target serve ⟨.outer, conn, input⟩ next) :
    ∃ read', Caught target serve state events read' done replies next := by
  rcases goes with ⟨mark, taken⟩
  cases input with
  | nil => cases taken
  | cons event input =>
      refine ⟨read ++ [event], ?_⟩
      simp only [step, readStep] at taken
      split at taken
      next blocked =>
        rcases blocked with ⟨empty, rfl⟩
        cases taken
        refine ⟨?_, fun more => ?_, caught.answered, caught.written, caught.sent⟩
        · rw [caught.input, List.append_assoc]
          rfl
        · rw [List.append_assoc, caught.requests]
          simp only [remaining, empty]
          exact congrArg (done ++ ·) (requests_of_wouldBlock more)
      next =>
        cases got : conn.receive event with
        | none =>
            rw [got] at taken
            cases taken
        | some received =>
            rw [got] at taken
            cases taken
            rcases Task.kept_of_receive got with ⟨same, writer⟩
            refine ⟨?_, fun more => ?_, ?_, ?_, fun _ => ?_⟩
            · rw [caught.input, List.append_assoc]
              rfl
            · rw [List.append_assoc, caught.requests]
              exact congrArg (done ++ ·) (requests_cons target got more)
            · exact same ▸ caught.answered
            · exact writer ▸ caught.written
            · exact writer ▸ caught.sent (fun held => held)

theorem caught_leave {madeProgress : Bool}
    (caught : Caught target serve state events read done replies
      ⟨.behind madeProgress, conn, input⟩)
    (goes : Goes target serve ⟨.behind madeProgress, conn, input⟩ next) :
    Caught target serve state events read done replies next := by
  rcases goes with ⟨mark, taken⟩
  simp only [step, leaveStep] at taken
  split at taken
  next =>
    cases taken
    exact ⟨caught.input, caught.requests, caught.answered,
      (BufWriter.written_flush _).trans caught.written, fun _ => rfl⟩
  next kept =>
    cases taken
    refine ⟨caught.input, caught.requests, caught.answered, caught.written, fun _ => ?_⟩
    by_cases held : madeProgress = true
    · by_contra waiting
      exact kept ⟨held, waiting⟩
    · exact caught.sent held

theorem caught_frame {pipelineCount : ℕ} {madeProgress : Bool}
    (caught : Caught target serve state events read done replies
      ⟨.inner pipelineCount madeProgress, conn, input⟩)
    (goes : Goes target serve ⟨.inner pipelineCount madeProgress, conn, input⟩ next) :
    ∃ done' replies', Caught target serve state events read done' replies' next := by
  rcases next with ⟨point, conn', input'⟩
  rcases round_of_goes goes with ⟨same, round⟩
  dsimp only at same round
  cases same
  cases round with
  | waiting incomplete =>
      refine ⟨done, replies, caught.input, fun more => ?_, caught.answered, caught.written,
        caught.sent⟩
      rw [caught.requests]
      simp only [remaining, requestsIn_of_incomplete incomplete]
      rfl
  | @served resp reply consumed _ _ accepted given buf state' writer =>
      have written : conn'.writer.written = conn.writer.written ++ reply.toBytes := by
        rcases writer with writer | writer
        · rw [writer, Connection.written_reply]
        · rw [writer, BufWriter.written_flush, Connection.written_reply]
      refine ⟨done ++ [.frame resp], replies ++ [reply], caught.input, fun more => ?_, ?_, ?_,
        fun idle => absurd rfl idle⟩
      · rw [caught.requests, List.append_assoc]
        simp only [remaining, requestsIn_of_ok accepted, buf]
        rfl
      · apply respond_snoc caught.answered
        rw [respond, given, state']
        rfl
      · rw [written, caught.written, List.flatMap_append, List.flatMap_singleton]
  | @malformed message invalid =>
      refine ⟨done ++ [.malformed message], replies ++ [.simpleError message], caught.input,
        fun more => ?_, respond_snoc caught.answered rfl, ?_, fun _ => rfl⟩
      · rw [caught.requests, List.append_assoc]
        simp only [remaining, requestsIn_of_invalid invalid]
        rfl
      · change (conn.reply _).writer.flush.written = _
        rw [BufWriter.written_flush, Connection.written_reply, caught.written,
          List.flatMap_append, List.flatMap_singleton]

end Step

theorem caught_passes {spill : Spill UInt8} {loop : Loop S}
    (passes : Passes target serve ⟨.outer, Connection.new spill state, events⟩ loop) :
    ∃ read done replies, Caught target serve state events read done replies loop := by
  induction passes with
  | refl => exact ⟨[], [], [], caught_start spill target serve state events⟩
  | @tail loop next _ goes ih =>
      rcases ih with ⟨read, done, replies, caught⟩
      rcases loop with ⟨point, conn, input⟩
      cases point with
      | outer =>
          rcases caught_read caught goes with ⟨read', caught'⟩
          exact ⟨read', done, replies, caught'⟩
      | inner pipelineCount madeProgress => exact ⟨read, caught_frame caught goes⟩
      | behind madeProgress => exact ⟨read, done, replies, caught_leave caught goes⟩

/-! ## The way back to the socket -/

/-- Without reading more, the task gets to the top of the outer loop, unless it panics. -/
def Returns (target : Target) (serve : Serve S) (loop : Loop S) : Prop :=
  ∃ loop', Passes target serve loop loop' ∧ loop'.input = loop.input ∧
    (loop'.point = .outer ∨ ∃ conn, step target serve loop' = .inl (.panicked, conn))

theorem Returns.head {loop next : Loop S} (goes : Goes target serve loop next)
    (same : next.input = loop.input) (returns : Returns target serve next) :
    Returns target serve loop := by
  rcases returns with ⟨loop', passes, input, arrived⟩
  exact ⟨loop', passes.head goes, input.trans same, arrived⟩

theorem returns_behind (madeProgress : Bool) (conn : Connection S) (input : List ReadEvent) :
    Returns target serve ⟨.behind madeProgress, conn, input⟩ := by
  by_cases waiting : madeProgress ∧ conn.writer.buffer ≠ []
  · refine ⟨⟨.outer, conn.flush, input⟩, .single ⟨⟨false, false, true⟩, ?_⟩, rfl, Or.inl rfl⟩
    simp only [step, leaveStep, if_pos waiting]
  · refine ⟨⟨.outer, conn, input⟩, .single ⟨Mark.idle, ?_⟩, rfl, Or.inl rfl⟩
    simp only [step, leaveStep, if_neg waiting]

theorem step_inner (pipelineCount : ℕ) (madeProgress : Bool) (conn : Connection S)
    (input : List ReadEvent) :
    let loop : Loop S := ⟨.inner pipelineCount madeProgress, conn, input⟩
    (∃ conn', step target serve loop = .inl (.panicked, conn')) ∨
      ∃ next, Goes target serve loop next := by
  intro loop
  simp only [Goes, step, loop]
  cases frameStep target serve pipelineCount madeProgress conn input with
  | inl conn' => exact Or.inl ⟨conn', rfl⟩
  | inr taken => exact Or.inr ⟨taken.2, taken.1, rfl⟩

theorem returns_inner (pipelineCount : ℕ) (madeProgress : Bool) (conn : Connection S)
    (input : List ReadEvent) :
    Returns target serve ⟨.inner pipelineCount madeProgress, conn, input⟩ := by
  -- Each frame takes at least one byte from the buffer.
  induction size : conn.buf.length using Nat.strong_induction_on
    generalizing pipelineCount madeProgress conn with
  | h size ih =>
      rcases step_inner pipelineCount madeProgress conn input with panicked | ⟨next, goes⟩
      · exact ⟨_, .refl, rfl, Or.inr panicked⟩
      · rcases next with ⟨point, conn', input'⟩
        rcases round_of_goes goes with ⟨same, round⟩
        dsimp only at same round
        cases same
        apply Returns.head goes rfl
        cases round with
        | waiting | malformed => exact returns_behind ..
        | served accepted _ buf =>
            have delimited := Parser.parse_selfDelimiting target
            refine ih conn'.buf.length ?_ _ _ conn' rfl
            rw [buf, List.length_drop, ← size]
            exact Nat.sub_lt ((delimited.consumed_pos accepted).trans_le
              (delimited.consumed_le accepted)) (delimited.consumed_pos accepted)

theorem returns (loop : Loop S) : Returns target serve loop := by
  rcases loop with ⟨outer | _ | _, conn, input⟩
  · exact ⟨_, .refl, rfl, Or.inl rfl⟩
  · exact returns_inner ..
  · exact returns_behind ..

end Loop

/-- Whenever a connection turns to its socket, all requests that it has found in what was
read so far are answered: their replies are sent, and the buffer of the writer is empty.
From anywhere else it gets there without reading more, or panics on its way. -/
theorem no_reply_held_back {S : Type} (spill : Spill UInt8) (target : Target) (serve : Serve S)
    (state : S) (events : List ReadEvent) {loop : Loop S}
    (passes : Loop.Passes target serve ⟨.outer, Connection.new spill state, events⟩ loop) :
    (loop.point = .outer → ∃ read replies, events = read ++ loop.input ∧
      respond serve (requests target read []) state = some (replies, loop.conn.state) ∧
      loop.conn.writer.sent = replies.flatMap RespType.toBytes ∧
      loop.conn.writer.buffer = []) ∧
    ∃ loop', Loop.Passes target serve loop loop' ∧ loop'.input = loop.input ∧
      (loop'.point = .outer ∨ ∃ conn, loop'.step target serve = .inl (.panicked, conn)) := by
  rcases Loop.caught_passes passes with ⟨read, done, replies, caught⟩
  refine ⟨fun atTop => ?_, loop.returns⟩
  have sent : loop.conn.writer.buffer = [] := caught.sent (by rw [atTop]; exact id)
  have all : requests target read [] = done := by
    have complete := caught.requests []
    rw [List.append_nil] at complete
    rw [complete, Loop.remaining, atTop]
    exact List.append_nil done
  refine ⟨read, replies, caught.input, all ▸ caught.answered, ?_, sent⟩
  have written := caught.written
  rw [BufWriter.written, sent, List.append_nil] at written
  exact written

/-- The connection after a number of steps. -/
def Loop.after {S : Type} (target : Target) (serve : Serve S) : ℕ → Loop S → Loop S
  | 0, loop => loop
  | n + 1, loop =>
      match loop.step target serve with
      | .inl _ => loop
      | .inr (_, next) => Loop.after target serve n next

theorem Loop.passes_after {S : Type} {target : Target} {serve : Serve S} (n : ℕ) (loop : Loop S) :
    Loop.Passes target serve loop (loop.after target serve n) := by
  induction n generalizing loop with
  | zero => exact .refl
  | succ n ih =>
      rw [Loop.after]
      cases taken : loop.step target serve with
      | inl ended => exact .refl
      | inr next => exact .head ⟨next.1, taken⟩ (ih next.2)

/-- A client that waits for the reply to its first request, with the beginning of the
second one already sent. -/
theorem no_reply_held_back_ping :
    let serve := Client.serve ⟨true, 24⟩ fun _ => 0
    let state : Session := ⟨Client.new, ⟨∅, ∅⟩, 0⟩
    let events := [ReadEvent.bytes (utf8Bytes "PING\r\nPI"), .wouldBlock]
    let loop := Loop.after ⟨true, 24⟩ serve 4 ⟨.outer, Connection.new .atFlush state, events⟩
    loop.point = .outer ∧ loop.conn.buf = utf8Bytes "PI" ∧
      loop.conn.writer.sent = utf8Bytes "+Pong\r\n" ∧ loop.conn.writer.buffer = [] := by
  intro serve state events loop
  have atTop : loop.point = .outer := by decide +kernel
  have sent : loop.conn.writer.sent = utf8Bytes "+Pong\r\n" := by decide +kernel
  have passes : Loop.Passes ⟨true, 24⟩ serve ⟨.outer, Connection.new .atFlush state, events⟩ loop :=
    Loop.passes_after 4 _
  rcases (no_reply_held_back .atFlush ⟨true, 24⟩ serve state events passes).1 atTop with
    ⟨_, _, -, -, -, empty⟩
  exact ⟨atTop, by decide +kernel, sent, empty⟩

end Ember
