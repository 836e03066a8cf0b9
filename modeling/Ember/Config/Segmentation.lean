import Ember.Config.Client
import Ember.Resp.Delimited

/-!
# Segmentation of a connection

The frames of a stream are those that the parser finds in the whole of it, one
after the other.  A connection executes them and writes their replies, each once
and in order, however the stream is cut into reads.

Malformed bytes are thrown away together with whatever was read with them.  The reads
then cut the stream into sections, each but the last of which ends in malformed bytes,
and the connection serves one section after the other.
-/

namespace Ember

open Ember.Base Ember.Base.Framing Ember.Database Ember.Resp

universe u

/-- The bytes that an attempt to read adds to the buffer. -/
def ReadEvent.received : ReadEvent → List UInt8
  | .bytes chunk => chunk
  | .wouldBlock | .failed => []

/-- The reads deliver a stream, in pieces that are not empty and with any number of
fruitless attempts in between. -/
structure Delivers (events : List ReadEvent) (stream : List UInt8) : Prop where
  undisturbed : ∀ event ∈ events, event ≠ .failed ∧ event ≠ .bytes []
  received : events.flatMap ReadEvent.received = stream

theorem Delivers.of_cons {event : ReadEvent} {events : List ReadEvent} {stream : List UInt8}
    (delivers : Delivers (event :: events) stream) :
    (event ≠ .failed ∧ event ≠ .bytes []) ∧
      ∃ rest, stream = event.received ++ rest ∧ Delivers events rest := by
  rcases delivers with ⟨undisturbed, rfl⟩
  rcases List.forall_mem_cons.mp undisturbed with ⟨first, others⟩
  exact ⟨first, _, List.flatMap_cons, others, rfl⟩

/-- The reply to a frame, whether it succeeded or was refused. -/
def answer : Outcome String RespType → Option RespType
  | .ok res => some res
  | .error e => some (.simpleError e)
  | .panic => none

/-- The replies to frames that are executed one after the other, with the state
they leave.  There are none if one of the frames panics. -/
def answers {S : Type u} (serve : Serve S) : List RespType → S → Option (List RespType × S)
  | [], state => some ([], state)
  | frame :: frames, state =>
      (answer (serve frame state).1).bind fun reply =>
        (answers serve frames (serve frame state).2).map fun rest => (reply :: rest.1, rest.2)

section Answers

variable {S : Type u} {serve : Serve S}

theorem answers_cons_eq_some_iff {frame : RespType} {frames replies : List RespType}
    {state state' : S} : answers serve (frame :: frames) state = some (replies, state') ↔
      ∃ reply rest, answer (serve frame state).1 = some reply ∧
        answers serve frames (serve frame state).2 = some (rest, state') ∧
          replies = reply :: rest := by
  simp only [answers, Option.bind_eq_some_iff, Option.map_eq_some_iff]
  constructor
  · rintro ⟨reply, given, ⟨rest, _⟩, later, ⟨⟩⟩
    exact ⟨reply, rest, given, later, rfl⟩
  · rintro ⟨reply, rest, given, later, rfl⟩
    exact ⟨reply, given, (rest, state'), later, rfl⟩

theorem length_answers {frames replies : List RespType} {state state' : S}
    (answered : answers serve frames state = some (replies, state')) :
    replies.length = frames.length := by
  induction frames generalizing state replies with
  | nil =>
      cases answered
      rfl
  | cons frame frames ih =>
      rcases answers_cons_eq_some_iff.mp answered with ⟨reply, rest, -, later, rfl⟩
      rw [List.length_cons, List.length_cons, ih later]

end Answers

/-! ## What a connection comes to -/

/-- The bytes not consumed, everything written, and the state: a connection apart
from the moments at which it sends its replies. -/
@[ext]
structure Served (S : Type u) where
  buf : List UInt8
  written : List UInt8
  state : S

/-- A connection without the place where its replies are. -/
def Connection.served {S : Type u} (conn : Connection S) : Served S :=
  ⟨conn.buf, conn.writer.written, conn.state⟩

/-- There is nothing to speak of behind a panic. -/
def Drained.served {S : Type u} : Drained S → Option (Served S)
  | .done _ conn => some conn.served
  | .panicked _ => none

/-- Everything written when the loop over the frames is done. -/
def Drained.written {S : Type u} : Drained S → List UInt8
  | drained => drained.conn.writer.written

/-- The bytes behind the frames at the front of a buffer are malformed. -/
def Malformed (target : Target) (buf : List UInt8) : Prop :=
  ∃ message, Parser.parse target (unframe (Parser.parse target) buf).2 =
    .error (.invalid message)

instance (target : Target) : DecidablePred (Malformed target) := fun buf =>
  match verdict : Parser.parse target (unframe (Parser.parse target) buf).2 with
  | .error (.invalid message) => isTrue ⟨message, verdict⟩
  | .error .incomplete | .ok _ | .panic => isFalse (by rintro ⟨message, invalid⟩; simp_all)

/-- The frames in the buffer are executed and answered.  Malformed bytes behind them
are answered too, and take the rest of the buffer with them. -/
def settle {S : Type u} (target : Target) (serve : Serve S) (s : Served S) : Option (Served S) :=
  (answers serve (unframe (Parser.parse target) s.buf).1 s.state).bind fun answered =>
    let written := s.written ++ answered.1.flatMap RespType.toBytes
    match Parser.parse target (unframe (Parser.parse target) s.buf).2 with
    | .error .incomplete =>
        some ⟨(unframe (Parser.parse target) s.buf).2, written, answered.2⟩
    | .error (.invalid message) =>
        some ⟨[], written ++ (RespType.simpleError message).toBytes, answered.2⟩
    | _ => none

/-- The connection, with more bytes received. -/
def Served.add {S : Type u} (s : Served S) (more : List UInt8) : Served S :=
  { s with buf := s.buf ++ more }

section Settle

variable {S : Type u} {target : Target} {serve : Serve S} {s : Served S}

/-- One frame after the other. -/
theorem settle_of_ok {resp : RespType} {consumed : ℕ}
    (accepted : Parser.parse target s.buf = .ok (resp, consumed)) :
    settle target serve s = (answer (serve resp s.state).1).bind fun reply =>
      settle target serve
        ⟨s.buf.drop consumed, s.written ++ reply.toBytes, (serve resp s.state).2⟩ := by
  rw [settle, unframe_of_ok (Parser.parse_selfDelimiting target) accepted, answers]
  cases answer (serve resp s.state).1 with
  | none => rfl
  | some reply =>
      rw [Option.bind_some, Option.bind_some, settle]
      dsimp only
      cases answers serve (unframe (Parser.parse target) (s.buf.drop consumed)).1
        (serve resp s.state).2 with
      | none => rfl
      | some rest =>
          rw [Option.map_some, Option.bind_some, Option.bind_some, List.flatMap_cons,
            List.append_assoc]

/-- Without a frame the verdict on the buffer decides. -/
theorem settle_of_not_ok (rejected : ∀ value n, Parser.parse target s.buf ≠ .ok (value, n)) :
    settle target serve s = match Parser.parse target s.buf with
      | .error .incomplete => some s
      | .error (.invalid message) =>
          some ⟨[], s.written ++ (RespType.simpleError message).toBytes, s.state⟩
      | _ => none := by
  rw [settle, unframe_of_not_ok rejected, answers, Option.bind_some, List.flatMap_nil]
  simp only [List.append_nil]

theorem settle_of_incomplete (waiting : Parser.parse target s.buf = .error .incomplete) :
    settle target serve s = some s := by
  rw [settle_of_not_ok (by rw [waiting]; nofun), waiting]

/-- What is left in the buffer is an unfinished frame, or nothing. -/
theorem incomplete_of_settle {s' : Served S} (settled : settle target serve s = some s') :
    Parser.parse target s'.buf = .error .incomplete := by
  rcases Option.bind_eq_some_iff.mp settled with ⟨answered, -, rest⟩
  split at rest
  next waiting =>
    cases rest
    exact waiting
  next =>
    cases rest
    rfl
  next => cases rest

theorem malformed_drop_iff {buf : List UInt8} {resp : RespType} {consumed : ℕ}
    (accepted : Parser.parse target buf = .ok (resp, consumed)) :
    Malformed target buf ↔ Malformed target (buf.drop consumed) := by
  rw [Malformed, unframe_of_ok (Parser.parse_selfDelimiting target) accepted]
  rfl

/-- Malformed bytes stay where they are when more arrive. -/
theorem Malformed.unframe_append {buf : List UInt8} (malformed : Malformed target buf)
    (more : List UInt8) : unframe (Parser.parse target) (buf ++ more) =
      ((unframe (Parser.parse target) buf).1, (unframe (Parser.parse target) buf).2 ++ more) ∧
    Parser.parse target ((unframe (Parser.parse target) buf).2 ++ more) =
      Parser.parse target (unframe (Parser.parse target) buf).2 := by
  have delimited := Parser.parse_selfDelimiting target
  rcases malformed with ⟨message, invalid⟩
  have stable : Parser.parse target ((unframe (Parser.parse target) buf).2 ++ more) =
      Parser.parse target (unframe (Parser.parse target) buf).2 :=
    delimited.stable more (by rw [invalid]; nofun)
  have stuck : unframe (Parser.parse target) ((unframe (Parser.parse target) buf).2 ++ more) =
      ([], (unframe (Parser.parse target) buf).2 ++ more) :=
    unframe_of_not_ok (by rw [stable, invalid]; nofun)
  rw [Framing.unframe_append delimited, stuck, List.append_nil]
  exact ⟨rfl, stable⟩

/-- Bytes that are malformed stay so when more arrive. -/
theorem Malformed.append {buf : List UInt8} (malformed : Malformed target buf)
    (more : List UInt8) : Malformed target (buf ++ more) := by
  rcases malformed.unframe_append more with ⟨split, stable⟩
  rcases malformed with ⟨message, invalid⟩
  exact ⟨message, by rw [split, stable, invalid]⟩

/-- Unless malformed bytes are thrown away in between, it makes no difference in how
many pieces the bytes arrive. -/
theorem settle_add (valid : ¬Malformed target s.buf) (more : List UInt8) :
    ((settle target serve s).bind fun s' => settle target serve (s'.add more)) =
      settle target serve (s.add more) := by
  have delimited := Parser.parse_selfDelimiting target
  -- one frame after the other, until the first piece holds no more
  induction size : s.buf.length using Nat.strong_induction_on generalizing s with
  | h size ih =>
      subst size
      have stable : Parser.parse target s.buf ≠ .error .incomplete →
          Parser.parse target (s.buf ++ more) = Parser.parse target s.buf :=
        delimited.stable more
      cases verdict : Parser.parse target s.buf with
      | ok accepted =>
          rcases accepted with ⟨resp, consumed⟩
          have accepted' : Parser.parse target (s.add more).buf = .ok (resp, consumed) := by
            rw [Served.add, stable (by rw [verdict]; nofun), verdict]
          rw [settle_of_ok verdict, settle_of_ok accepted', Option.bind_assoc]
          congr 1
          funext reply
          have pos := delimited.consumed_pos verdict
          have bound := delimited.consumed_le verdict
          rw [ih _ (by rw [List.length_drop]; omega)
            (by rwa [← malformed_drop_iff verdict]) rfl]
          rw [Served.add, Served.add, List.drop_append_of_le_length bound]
      | error reason =>
          cases reason with
          | incomplete => rw [settle_of_incomplete verdict, Option.bind_some]
          | invalid message =>
              refine absurd ⟨message, ?_⟩ valid
              rw [unframe_of_not_ok (by rw [verdict]; nofun)]
              exact verdict
      | panic =>
          have panics : Parser.parse target (s.add more).buf = .panic := by
            rw [Served.add, stable (by rw [verdict]; nofun), verdict]
          rw [settle_of_not_ok (by rw [verdict]; nofun), settle_of_not_ok (by rw [panics]; nofun),
            verdict, panics]
          rfl

end Settle

namespace Connection

variable {S : Type u} {target : Target} {serve : Serve S}

theorem written_reply (conn : Connection S) (resp : RespType) :
    (conn.reply resp).writer.written = conn.writer.written ++ resp.toBytes :=
  RespType.written_writeTo BufWriter.written_writeAll resp conn.writer

theorem served_reply (conn : Connection S) (resp : RespType) :
    (conn.reply resp).served = ⟨conn.buf, conn.writer.written ++ resp.toBytes, conn.state⟩ := by
  rw [served, written_reply]
  rfl

theorem served_flush (conn : Connection S) : conn.flush.served = conn.served := by
  rw [served, flush, BufWriter.written_flush]
  rfl

theorem drain_of_incomplete {fuel : ℕ} {pipelineCount : ℕ} {madeProgress : Bool}
    {conn : Connection S} (waiting : Parser.parse target conn.buf = .error .incomplete) :
    drain target serve fuel pipelineCount madeProgress conn = .done madeProgress conn := by
  cases fuel with
  | zero => rfl
  | succ fuel =>
      rw [drain_succ, waiting]
      exact ite_self _

/-- A complete frame is executed, its reply written, and the loop goes on with the
rest of the buffer; or the frame panics. -/
theorem served_drain_of_ok {fuel pipelineCount : ℕ} {madeProgress : Bool} {conn : Connection S}
    {resp : RespType} {consumed : ℕ}
    (accepted : Parser.parse target conn.buf = .ok (resp, consumed)) :
    (∃ reply count conn', answer (serve resp conn.state).1 = some reply ∧
      drain target serve (fuel + 1) pipelineCount madeProgress conn =
        drain target serve fuel count true conn' ∧
      conn'.served = ⟨conn.buf.drop consumed, conn.writer.written ++ reply.toBytes,
        (serve resp conn.state).2⟩) ∨
    answer (serve resp conn.state).1 = none ∧
      drain target serve (fuel + 1) pipelineCount madeProgress conn =
        .panicked ⟨conn.buf.drop consumed, conn.writer, (serve resp conn.state).2⟩ := by
  have nonempty : conn.buf ≠ [] := by
    intro empty
    rw [empty] at accepted
    exact (Parser.parse_selfDelimiting target).nil accepted
  rcases executed : serve resp conn.state with ⟨res | e | _, state⟩ <;>
    simp only [drain_succ, if_neg nonempty, accepted, executed]
  · left
    have written := served_reply ⟨conn.buf.drop consumed, conn.writer, state⟩ res
    by_cases deep : maxPipelineDepth ≤ pipelineCount + 1
    · exact ⟨res, 0, _, rfl, if_pos deep, (served_flush _).trans written⟩
    · exact ⟨res, pipelineCount + 1, _, rfl, if_neg deep, written⟩
  · exact Or.inl ⟨.simpleError e, pipelineCount + 1, _, rfl, rfl, served_reply _ _⟩
  · exact Or.inr ⟨rfl, trivial⟩

/-- The inner loop settles the buffer. -/
theorem served_drain {fuel pipelineCount : ℕ} {madeProgress : Bool} {conn : Connection S}
    (enough : conn.buf.length ≤ fuel) :
    (drain target serve fuel pipelineCount madeProgress conn).served =
      settle target serve conn.served := by
  have delimited := Parser.parse_selfDelimiting target
  induction fuel generalizing pipelineCount madeProgress conn with
  | zero =>
      have empty : conn.buf = [] := List.eq_nil_of_length_eq_zero (Nat.le_zero.mp enough)
      rw [settle_of_incomplete (by rw [served, empty]; rfl)]
      rfl
  | succ fuel ih =>
      cases verdict : Parser.parse target conn.buf with
      | ok accepted =>
          rcases accepted with ⟨resp, consumed⟩
          rw [settle_of_ok verdict]
          rcases served_drain_of_ok verdict with
            ⟨reply, count, conn', given, step, next⟩ | ⟨given, step⟩
          · have shorter : conn'.buf.length ≤ fuel := by
              have rest := congrArg (List.length ∘ Served.buf) next
              have pos := delimited.consumed_pos verdict
              simp only [Function.comp, served, List.length_drop] at rest
              omega
            rw [step, ih shorter, next, served, given, Option.bind_some]
          · rw [step, served, given]
            rfl
      | error reason =>
          cases reason with
          | incomplete =>
              rw [drain_of_incomplete verdict, settle_of_incomplete verdict]
              rfl
          | invalid message =>
              have nonempty : conn.buf ≠ [] := by
                intro empty
                rw [empty] at verdict
                cases verdict
              have written := written_reply conn (.simpleError message)
              rw [settle_of_not_ok (by rw [served, verdict]; nofun)]
              simp only [drain_succ, if_neg nonempty, served, verdict, Drained.served, flush,
                BufWriter.written_flush, written]
              rfl
      | panic =>
          have nonempty : conn.buf ≠ [] := by
            intro empty
            rw [empty] at verdict
            cases verdict
          rw [settle_of_not_ok (by rw [served, verdict]; nofun)]
          simp only [drain_succ, if_neg nonempty, served, verdict, Drained.served]

theorem served_serveBuffered (conn : Connection S) :
    (serveBuffered target serve conn).served = settle target serve conn.served := by
  have drained : (drain target serve conn.buf.length 0 false conn).served = _ :=
    served_drain le_rfl
  rw [← drained, serveBuffered_eq]
  cases drain target serve conn.buf.length 0 false conn with
  | done madeProgress conn' =>
      simp only [Drained.served]
      split
      · rw [served_flush]
      · rfl
  | panicked conn' => rfl

/-- Nothing happens where the buffer holds no complete frame. -/
theorem serveBuffered_of_incomplete {conn : Connection S}
    (waiting : Parser.parse target conn.buf = .error .incomplete) :
    serveBuffered target serve conn = .done false conn := by
  simp only [serveBuffered_eq, drain_of_incomplete waiting, Bool.false_eq_true, false_and, if_false]

theorem handle_wouldBlock {events : List ReadEvent} {conn : Connection S}
    (waiting : Parser.parse target conn.buf = .error .incomplete) :
    handle target serve (.wouldBlock :: events) conn = handle target serve events conn := by
  rw [handle_cons]
  split
  · rfl
  · simp only [Link.receive, serveBuffered_of_incomplete waiting]

theorem handle_bytes {events : List ReadEvent} {conn : Connection S} {chunk : List UInt8}
    (nonempty : chunk ≠ []) :
    handle target serve (.bytes chunk :: events) conn =
      match serveBuffered target serve { conn with buf := conn.buf ++ chunk } with
      | .done _ conn' => handle target serve events conn'
      | .panicked conn' => (.panicked, conn') := by
  rcases List.exists_cons_of_ne_nil nonempty with ⟨first, others, rfl⟩
  have reads : ¬(conn.buf = [] ∧ ReadEvent.bytes (first :: others) = .wouldBlock) := by
    rintro ⟨-, ⟨⟩⟩
  rw [handle_cons, if_neg reads]
  rfl

/-- What is left of a connection that was closed. -/
def ended : Exit × Connection S → Option (Served S)
  | (.closed, conn) => some conn.served
  | (.panicked, _) => none

/-- A connection that is closed has sent everything. -/
theorem buffer_of_ended {events : List ReadEvent} {conn : Connection S} {s : Served S}
    (closed : ended (handle target serve events conn) = some s) :
    (handle target serve events conn).2.writer.buffer = [] := by
  induction events generalizing conn with
  | nil => rfl
  | cons event events ih =>
      revert closed
      rw [handle_cons]
      split
      · exact ih
      · cases conn.receive event with
        | none => exact fun _ => rfl
        | some received =>
            dsimp only
            cases serveBuffered target serve received with
            | done madeProgress conn' => exact ih
            | panicked conn' =>
                intro closed
                cases closed

theorem handle_eq_of_ended {events : List ReadEvent} {conn : Connection S} {s : Served S}
    (closed : ended (handle target serve events conn) = some s) :
    handle target serve events conn =
      (.closed, ⟨s.buf, ⟨conn.writer.spill, s.written, []⟩, s.state⟩) := by
  have empty := buffer_of_ended closed
  have spill : (handle target serve events conn).2.writer.spill = conn.writer.spill :=
    @keeps_handle _ _ _ (fun w => w.spill = conn.writer.spill) (fun _ _ => id) (fun _ => id) _ _ rfl
  generalize handle target serve events conn = result at closed empty spill
  rcases result with ⟨_ | _, buf, ⟨_, sent, buffer⟩, state⟩
  · cases closed
    obtain rfl : buffer = [] := empty
    cases spill
    simp [served, BufWriter.written]
  · cases closed

end Connection

/-! ## Reads -/

/-- A connection over a sequence of reads. -/
def settleAll {S : Type u} (target : Target) (serve : Serve S) :
    List ReadEvent → Served S → Option (Served S)
  | [], s => some s
  | event :: events, s =>
      (settle target serve (s.add event.received)).bind (settleAll target serve events)

theorem Connection.ended_handle {S : Type u} {target : Target} {serve : Serve S}
    {events : List ReadEvent} {conn : Connection S} {rest : List UInt8}
    (delivers : Delivers events rest)
    (waiting : Parser.parse target conn.buf = .error .incomplete) :
    ended (handle target serve events conn) = settleAll target serve events conn.served := by
  induction events generalizing conn rest with
  | nil =>
      rw [handle_nil, ended, served_flush]
      rfl
  | cons event events ih =>
      rcases delivers.of_cons with ⟨⟨sound, nonempty⟩, rest, rfl, later⟩
      cases event with
      | failed => exact absurd rfl sound
      | wouldBlock =>
          have same : conn.served.add [] = conn.served := by
            rw [Served.add, List.append_nil]
          rw [handle_wouldBlock waiting, settleAll, ReadEvent.received, same,
            settle_of_incomplete waiting, Option.bind_some, ih later waiting]
      | bytes chunk =>
          have settled :
              (serveBuffered target serve { conn with buf := conn.buf ++ chunk }).served =
                settle target serve (conn.served.add chunk) := served_serveBuffered _
          rw [handle_bytes fun empty => nonempty (by rw [empty]), settleAll, ReadEvent.received,
            ← settled]
          cases outcome : serveBuffered target serve { conn with buf := conn.buf ++ chunk } with
          | done progress conn' =>
              rw [outcome] at settled
              exact ih later (incomplete_of_settle settled.symm)
          | panicked conn' => rfl

/-- The stretches of the stream from one discarded rest of a buffer to the next:
each but the last ends with the read in which malformed bytes were found.  `pending`
is what has been received since the last time. -/
def sections (target : Target) (pending : List UInt8) : List ReadEvent → List (List UInt8)
  | [] => [pending]
  | event :: events =>
      if Malformed target (pending ++ event.received) then
        (pending ++ event.received) :: sections target [] events
      else
        sections target (pending ++ event.received) events

section Sections

variable {target : Target} {events : List ReadEvent} {pending rest : List UInt8}

theorem flatten_sections (delivers : Delivers events rest) :
    (sections target pending events).flatten = pending ++ rest := by
  induction events generalizing pending rest with
  | nil =>
      rcases delivers with ⟨-, rfl⟩
      simp [sections]
  | cons event events ih =>
      rcases delivers.of_cons with ⟨-, rest, rfl, later⟩
      rw [sections]
      split
      · rw [List.flatten_cons, ih later, List.nil_append, List.append_assoc]
      · rw [ih later, List.append_assoc]

theorem sections_of_not_malformed (delivers : Delivers events rest)
    (valid : ¬Malformed target (pending ++ rest)) :
    sections target pending events = [pending ++ rest] := by
  induction events generalizing pending rest with
  | nil =>
      rcases delivers with ⟨-, rfl⟩
      simp [sections]
  | cons event events ih =>
      rcases delivers.of_cons with ⟨-, rest, rfl, later⟩
      rw [← List.append_assoc] at valid ⊢
      rw [sections, if_neg fun malformed => valid (malformed.append rest), ih later valid]

variable {S : Type u} {serve : Serve S}

theorem buf_of_settle_of_malformed {s s' : Served S} (malformed : Malformed target s.buf)
    (settled : settle target serve s = some s') : s'.buf = [] := by
  rcases malformed with ⟨message, invalid⟩
  rcases Option.bind_eq_some_iff.mp settled with ⟨answered, -, outcome⟩
  rw [invalid] at outcome
  cases outcome
  rfl

/-- The reads of a section come to the same as the section in one piece. -/
theorem settleAll_eq_sections {s : Served S} (fresh : s.buf = [])
    (valid : ¬Malformed target pending) :
    (settle target serve (s.add pending)).bind (settleAll target serve events) =
      (sections target pending events).foldlM
        (fun s part => settle target serve (s.add part)) s := by
  induction events generalizing s pending with
  | nil =>
      change (settle target serve (s.add pending)).bind some = _
      simp [sections]
  | cons event events ih =>
      have joined : (s.add pending).add event.received = s.add (pending ++ event.received) := by
        simp only [Served.add, List.append_assoc]
      have notYet : ¬Malformed target (s.add pending).buf := by
        rwa [Served.add, fresh, List.nil_append]
      have first : (settle target serve (s.add pending)).bind
          (settleAll target serve (event :: events)) =
            (settle target serve (s.add (pending ++ event.received))).bind
              (settleAll target serve events) := by
        rw [← joined, ← settle_add notYet, Option.bind_assoc]
        rfl
      rw [first, sections]
      split
      next malformed =>
        rw [List.foldlM_cons]
        cases settled : settle target serve (s.add (pending ++ event.received)) with
        | none => rfl
        | some s' =>
            have cleared : s'.buf = [] := buf_of_settle_of_malformed
              (by rwa [Served.add, fresh, List.nil_append]) settled
            have waiting : Parser.parse target (s'.add []).buf = .error .incomplete := by
              rw [Served.add, cleared]
              rfl
            have rest := ih cleared (show ¬Malformed target [] by rintro ⟨message, ⟨⟩⟩)
            rw [settle_of_incomplete waiting, Option.bind_some, Served.add, List.append_nil] at rest
            exact rest
      next valid' => exact ih fresh valid'

end Sections

namespace Connection

variable {S : Type u} {target : Target} {serve : Serve S}

theorem ended_handle_new {events : List ReadEvent} {stream : List UInt8}
    (delivers : Delivers events stream) (spill : Spill UInt8) (state : S) :
    ended (handle target serve events (Connection.new spill state)) =
      (sections target [] events).foldlM (fun s part => settle target serve (s.add part))
        ⟨[], [], state⟩ := by
  rw [ended_handle delivers rfl, ← settleAll_eq_sections rfl (by rintro ⟨message, ⟨⟩⟩)]
  rfl

/-- A connection whose stream holds no malformed frame, and which does not panic,
executes exactly the frames of the whole stream and writes one reply for each, in
order.  How the stream is cut into reads makes no difference. -/
theorem handle_independent_of_segmentation (target : Target) (serve : Serve S)
    (spill : Spill UInt8) {stream : List UInt8} {events : List ReadEvent}
    (delivers : Delivers events stream)
    (valid : ∀ message, Parser.parse target (unframe (Parser.parse target) stream).2 ≠
      .error (.invalid message))
    (calm : Parser.parse target (unframe (Parser.parse target) stream).2 ≠ .panic)
    {state state' : S} {replies : List RespType}
    (answered : answers serve (unframe (Parser.parse target) stream).1 state =
      some (replies, state')) :
    replies.length = (unframe (Parser.parse target) stream).1.length ∧
      handle target serve events (Connection.new spill state) =
        (.closed, ⟨(unframe (Parser.parse target) stream).2,
          ⟨spill, replies.flatMap RespType.toBytes, []⟩, state'⟩) := by
  constructor
  · exact length_answers answered
  · have clean : Parser.parse target (unframe (Parser.parse target) stream).2 =
        .error .incomplete := by
      rcases verdict : Parser.parse target (unframe (Parser.parse target) stream).2 with
        ⟨value, n⟩ | (_ | message) | _
      · exact absurd verdict
          (unframe_rest_not_ok (Parser.parse_selfDelimiting target) stream value n)
      · rfl
      · exact absurd verdict (valid message)
      · exact absurd verdict calm
    have whole : sections target [] events = [stream] :=
      sections_of_not_malformed delivers fun ⟨message, invalid⟩ => valid message invalid
    have closed : ended (handle target serve events (Connection.new spill state)) =
        some ⟨(unframe (Parser.parse target) stream).2, replies.flatMap RespType.toBytes,
          state'⟩ := by
      rw [ended_handle_new delivers, whole]
      simp [Served.add, settle, answered, clean]
    exact handle_eq_of_ended closed

/-- An array and an inline command, cut inside a length, inside a name and between
CR and LF, with the beginning of a third frame. -/
theorem handle_independent_of_segmentation_pieces :
    let db : DB := ⟨FiniteMap.ofList [("a", .string "v")], ∅⟩
    let serve := Client.serve ⟨true, 32⟩ fun _ => 0
    let chunk := fun text => ReadEvent.bytes (utf8Bytes text)
    handle ⟨true, 32⟩ serve [chunk "*1\r\n$", chunk "4\r\nPI", .wouldBlock, chunk "NG\r\nGET a\r",
        chunk "\n+x"] (Connection.new .atFlush ⟨Client.new, db, 0⟩) =
      (.closed, ⟨utf8Bytes "+x", ⟨.atFlush, utf8Bytes "+Pong\r\n$1\r\nv\r\n", []⟩,
        ⟨Client.new, db, 4⟩⟩) := by
  intro db serve chunk
  have frames : unframe (Parser.parse ⟨true, 32⟩) (utf8Bytes "*1\r\n$4\r\nPING\r\nGET a\r\n+x") =
      ([.array [.bulkString "PING"], .array [.bulkString "GET", .bulkString "a"]],
        utf8Bytes "+x") := rfl
  have delivers : Delivers [chunk "*1\r\n$", chunk "4\r\nPI", .wouldBlock, chunk "NG\r\nGET a\r",
      chunk "\n+x"] (utf8Bytes "*1\r\n$4\r\nPING\r\nGET a\r\n+x") := ⟨by decide, by decide⟩
  have waiting : Parser.parse ⟨true, 32⟩ (utf8Bytes "+x") = .error .incomplete := rfl
  have answered : answers serve [.array [.bulkString "PING"],
      .array [.bulkString "GET", .bulkString "a"]] ⟨Client.new, db, 0⟩ =
        some ([.simpleString "Pong", .bulkString "v"], ⟨Client.new, db, 4⟩) := rfl
  have handled := handle_independent_of_segmentation ⟨true, 32⟩ serve .atFlush delivers
    (by rw [frames, waiting]; nofun) (by rw [frames, waiting]; nofun)
    (by rw [frames]; exact answered)
  rw [frames] at handled
  exact handled.2

end Connection

end Ember
