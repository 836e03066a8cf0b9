import Ember.Config.Task

/-!
# Requests and their replies

What a connection reads is a list of requests: the frames, and malformed bytes wherever
they take the rest of a read with them.  Whatever other tasks do to the maps meanwhile,
each request is answered by exactly one reply, in order, and a client that reads the
replies with the same parser gets back as many frames as it sent.
-/

namespace Ember

open Ember.Base Ember.Base.Framing Ember.Database Ember.Resp

/-- What a connection answers. -/
inductive Incoming where
  | frame (resp : RespType)
  | malformed (message : String)

/-- The requests in a buffer, and what is left of it unless the parser panics. -/
def requestsIn (target : Target) (buf : List UInt8) : List Incoming × Option (List UInt8) :=
  let frames := (unframe (Parser.parse target) buf).1.map Incoming.frame
  match Parser.parse target (unframe (Parser.parse target) buf).2 with
  | .error .incomplete => (frames, some (unframe (Parser.parse target) buf).2)
  | .error (.invalid message) => (frames ++ [.malformed message], some [])
  | .ok _ | .panic => (frames, none)

/-- The requests of a connection, from what its reads give and the bytes that it has
already received. -/
def requests (target : Target) : List ReadEvent → List UInt8 → List Incoming
  | [], _ | .failed :: _, _ | .bytes [] :: _, _ => []
  | event :: events, buf =>
      let (found, left) := requestsIn target (buf ++ event.received)
      found ++ left.elim [] (requests target events)

section RequestsIn

variable {target : Target} {buf : List UInt8}

theorem requestsIn_of_ok {resp : RespType} {consumed : ℕ}
    (accepted : Parser.parse target buf = .ok (resp, consumed)) :
    requestsIn target buf = (.frame resp :: (requestsIn target (buf.drop consumed)).1,
      (requestsIn target (buf.drop consumed)).2) := by
  unfold requestsIn
  rw [unframe_of_ok (Parser.parse_selfDelimiting target) accepted]
  dsimp only
  split <;> rfl

theorem requestsIn_of_incomplete (waiting : Parser.parse target buf = .error .incomplete) :
    requestsIn target buf = ([], some buf) := by
  rw [requestsIn, unframe_of_not_ok (by rw [waiting]; rintro _ _ ⟨⟩)]
  simp only [waiting, List.map_nil]

theorem requestsIn_of_invalid {message : String}
    (invalid : Parser.parse target buf = .error (.invalid message)) :
    requestsIn target buf = ([.malformed message], some []) := by
  rw [requestsIn, unframe_of_not_ok (by rw [invalid]; rintro _ _ ⟨⟩)]
  simp only [invalid, List.map_nil, List.nil_append]

theorem requests_cons (target : Target) {S : Type} {conn received : Connection S}
    {event : ReadEvent} (got : conn.receive event = some received) (events : List ReadEvent) :
    requests target (event :: events) conn.buf = (requestsIn target received.buf).1 ++
      (requestsIn target received.buf).2.elim [] (requests target events) := by
  rcases event with (_ | _) | _ | _ <;> cases got
  · rfl
  · rw [requests, ReadEvent.received, List.append_nil]
    all_goals rintro ⟨⟩

theorem requests_of_end {S : Type} {conn : Connection S} {event : ReadEvent}
    (ended : conn.receive event = none) (events : List ReadEvent) :
    requests target (event :: events) conn.buf = [] := by
  rcases event with (_ | _) | _ | _ <;> cases ended <;> rfl

theorem requests_of_wouldBlock (events : List ReadEvent) :
    requests target (.wouldBlock :: events) [] = requests target events [] := by
  have empty : requestsIn target [] = ([], some []) := requestsIn_of_incomplete rfl
  rw [requests, ReadEvent.received, List.append_nil, empty]
  · rfl
  all_goals rintro ⟨⟩

end RequestsIn

/-! ## Whatever the other tasks do -/

variable {Op : Type} {Res : Op → Type}

/-- The replies that a client can get to its requests, one after the other, with what
becomes of its transaction, when its map calls are answered in a possible way. -/
inductive Answered (service : Service Op Res) (possible : (op : Op) → Res op → Prop) :
    List Incoming → Client → List RespType → Client → Prop
  | nil (client : Client) : Answered service possible [] client [] client
  | frame {resp reply : RespType} {outcome : Outcome String RespType} {client next last : Client}
      {rest : List Incoming} {replies : List RespType}
      (served : (Task.serve service resp client).Returns possible (outcome, next))
      (given : answer outcome = some reply)
      (later : Answered service possible rest next replies last) :
      Answered service possible (.frame resp :: rest) client (reply :: replies) last
  | malformed {message : String} {client last : Client} {rest : List Incoming}
      {replies : List RespType} (later : Answered service possible rest client replies last) :
      Answered service possible (.malformed message :: rest) client
        (.simpleError message :: replies) last

namespace Answered

variable {service : Service Op Res} {possible : (op : Op) → Res op → Prop}
  {first second : List Incoming} {client middle last : Client} {replies replies' : List RespType}

theorem append (earlier : Answered service possible first client replies middle)
    (later : Answered service possible second middle replies' last) :
    Answered service possible (first ++ second) client (replies ++ replies') last := by
  induction earlier with
  | nil client => exact later
  | frame served given _ ih => exact .frame served given (ih later)
  | malformed _ ih => exact .malformed (ih later)

theorem length_eq (answered : Answered service possible first client replies last) :
    replies.length = first.length := by
  induction answered with
  | nil client => rfl
  | frame _ _ _ ih => rw [List.length_cons, List.length_cons, ih]
  | malformed _ ih => rw [List.length_cons, List.length_cons, ih]

/-- Each reply is what the frame at its place can be answered with. -/
theorem served_at {n : ℕ} {resp reply : RespType}
    (answered : Answered service possible first client replies last)
    (asked : first[n]? = some (.frame resp)) (replied : replies[n]? = some reply) :
    ∃ client outcome next, (Task.serve service resp client).Returns possible (outcome, next) ∧
      answer outcome = some reply := by
  induction answered generalizing n with
  | nil client => cases asked
  | frame served given later ih =>
      cases n with
      | zero =>
          cases asked
          cases replied
          exact ⟨_, _, _, served, given⟩
      | succ n => exact ih asked replied
  | malformed later ih =>
      cases n with
      | zero => cases asked
      | succ n => exact ih asked replied

end Answered

namespace Task

variable {service : Service Op Res} {possible : (op : Op) → Res op → Prop}
  {conn : Connection Client}

/-- A frame at the front of the buffer is answered, and the loop goes on behind it; or
it panics. -/
theorem returns_drain_of_ok {fuel pipelineCount : ℕ} {madeProgress : Bool} {resp : RespType}
    {consumed : ℕ} {drained : Drained Client}
    (accepted : Parser.parse service.target conn.buf = .ok (resp, consumed))
    (returns : (drain service (fuel + 1) pipelineCount madeProgress conn).Returns possible
      drained) :
    ∃ outcome client, (serve service resp conn.state).Returns possible (outcome, client) ∧
      ((∃ reply count conn', answer outcome = some reply ∧
        (drain service fuel count true conn').Returns possible drained ∧
          conn'.served =
            ⟨conn.buf.drop consumed, conn.writer.written ++ reply.toBytes, client⟩) ∨
        drained = .panicked ⟨conn.buf.drop consumed, conn.writer, client⟩) := by
  have nonempty : conn.buf ≠ [] := by
    intro empty
    rw [empty] at accepted
    exact (Parser.parse_selfDelimiting service.target).nil accepted
  simp only [drain_succ, if_neg nonempty, accepted] at returns
  rcases Prog.returns_bind_iff.mp returns with ⟨⟨outcome, client⟩, served, rest⟩
  refine ⟨outcome, client, served, ?_⟩
  cases outcome with
  | ok res =>
      have written := Connection.served_reply ⟨conn.buf.drop consumed, conn.writer, client⟩ res
      dsimp only at rest
      split at rest
      · exact Or.inl ⟨res, 0, _, rfl, rest, (Connection.served_flush _).trans written⟩
      · exact Or.inl ⟨res, pipelineCount + 1, _, rfl, rest, written⟩
  | error e =>
      exact Or.inl ⟨.simpleError e, pipelineCount + 1, _, rfl, rest, Connection.served_reply _ _⟩
  | panic => exact Or.inr (Prog.returns_ret_iff.mp rest)

/-- What a loop over the frames has done: it answered the requests in the buffer, all of
them unless one panicked. -/
structure Settled (service : Service Op Res) (possible : (op : Op) → Res op → Prop)
    (conn : Connection Client) (drained : Drained Client) (answered rest : List Incoming)
    (replies : List RespType) (client : Client) : Prop where
  requests : (requestsIn service.target conn.buf).1 = answered ++ rest
  answers : Answered service possible answered conn.state replies client
  written : drained.conn.writer.written =
    conn.writer.written ++ replies.flatMap RespType.toBytes
  done : ∀ {madeProgress conn'}, drained = .done madeProgress conn' →
    rest = [] ∧ client = conn'.state ∧ (requestsIn service.target conn.buf).2 = some conn'.buf

theorem drain_of_incomplete {fuel pipelineCount : ℕ} {madeProgress : Bool}
    (waiting : Parser.parse service.target conn.buf = .error .incomplete) :
    drain service fuel pipelineCount madeProgress conn = return .done madeProgress conn := by
  cases fuel with
  | zero => rfl
  | succ fuel =>
      rw [drain_succ, waiting]
      exact ite_self _

theorem settled_of_incomplete (waiting : Parser.parse service.target conn.buf = .error .incomplete)
    (madeProgress : Bool) :
    Settled service possible conn (.done madeProgress conn) [] [] [] conn.state where
  requests := by rw [requestsIn_of_incomplete waiting]; rfl
  answers := .nil conn.state
  written := (List.append_nil _).symm
  done := by
    rintro _ _ ⟨⟩
    exact ⟨rfl, rfl, by rw [requestsIn_of_incomplete waiting]⟩

theorem settled_drain_of_incomplete {fuel pipelineCount : ℕ} {madeProgress : Bool}
    {drained : Drained Client} (waiting : Parser.parse service.target conn.buf = .error .incomplete)
    (returns : (drain service fuel pipelineCount madeProgress conn).Returns possible drained) :
    Settled service possible conn drained [] [] [] conn.state := by
  rw [drain_of_incomplete waiting] at returns
  cases Prog.returns_ret_iff.mp returns
  exact settled_of_incomplete waiting madeProgress

theorem settled_of_invalid {message : String} (madeProgress : Bool)
    (invalid : Parser.parse service.target conn.buf = .error (.invalid message)) :
    Settled service possible conn
      (.done madeProgress { (conn.reply (.simpleError message)).flush with buf := [] })
      [.malformed message] [] [.simpleError message] conn.state where
  requests := by rw [requestsIn_of_invalid invalid]; rfl
  answers := .malformed (.nil conn.state)
  written := by
    have written := Connection.written_reply conn (.simpleError message)
    rw [List.flatMap_singleton, ← written]
    exact BufWriter.written_flush _
  done := by
    rintro _ _ ⟨⟩
    exact ⟨rfl, rfl, by rw [requestsIn_of_invalid invalid]⟩

/-- The first request panics. -/
theorem settled_of_panic {conn' : Connection Client} (unwritten : conn'.writer = conn.writer) :
    Settled service possible conn (.panicked conn') [] (requestsIn service.target conn.buf).1 []
      conn.state where
  requests := rfl
  answers := .nil conn.state
  written := by rw [Pass.conn, unwritten]; exact (List.append_nil _).symm
  done := by rintro _ _ ⟨⟩

theorem settled_drain {fuel pipelineCount : ℕ} {madeProgress : Bool} {drained : Drained Client}
    (enough : conn.buf.length ≤ fuel)
    (returns : (drain service fuel pipelineCount madeProgress conn).Returns possible drained) :
    ∃ answered rest replies client,
      Settled service possible conn drained answered rest replies client := by
  have delimited := Parser.parse_selfDelimiting service.target
  induction fuel generalizing pipelineCount madeProgress conn with
  | zero =>
      have empty := List.eq_nil_of_length_eq_zero (Nat.le_zero.mp enough)
      exact ⟨_, _, _, _, settled_drain_of_incomplete (by rw [empty]; rfl) returns⟩
  | succ fuel ih =>
      by_cases empty : conn.buf = []
      · exact ⟨_, _, _, _, settled_drain_of_incomplete (by rw [empty]; rfl) returns⟩
      cases verdict : Parser.parse service.target conn.buf with
      | ok accepted =>
          rcases accepted with ⟨resp, consumed⟩
          have found := requestsIn_of_ok verdict
          rcases returns_drain_of_ok verdict returns with
            ⟨outcome, client, served, ⟨reply, count, conn', given, later, next⟩ | rfl⟩
          · rcases (Served.mk.injEq ..).mp next with ⟨buf, written, state⟩
            have pos := delimited.consumed_pos verdict
            have shorter : conn'.buf.length ≤ fuel := by
              rw [buf, List.length_drop]
              omega
            obtain ⟨answered, rest, replies, last, settled⟩ := ih shorter later
            refine ⟨.frame resp :: answered, rest, reply :: replies, last, ?_, ?_, ?_, ?_⟩
            · rw [found, ← buf, settled.requests, List.cons_append]
            · exact .frame served given (state ▸ settled.answers)
            · rw [settled.written, written, List.flatMap_cons, List.append_assoc]
            · rw [found, ← buf]
              exact settled.done
          · exact ⟨_, _, _, _, settled_of_panic rfl⟩
      | error reason =>
          cases reason with
          | incomplete => exact ⟨_, _, _, _, settled_drain_of_incomplete verdict returns⟩
          | invalid message =>
              simp only [drain_succ, if_neg empty, verdict] at returns
              cases Prog.returns_ret_iff.mp returns
              exact ⟨_, _, _, _, settled_of_invalid madeProgress verdict⟩
      | panic =>
          simp only [drain_succ, if_neg empty, verdict] at returns
          cases Prog.returns_ret_iff.mp returns
          exact ⟨_, _, _, _, settled_of_panic rfl⟩

theorem settled_serveBuffered {drained : Drained Client}
    (returns : (serveBuffered service conn).Returns possible drained) :
    ∃ answered rest replies client,
      Settled service possible conn drained answered rest replies client := by
  rw [serveBuffered_eq] at returns
  rcases Prog.returns_bind_iff.mp returns with ⟨inner, looped, left⟩
  obtain ⟨answered, rest, replies, client, settled⟩ := settled_drain le_rfl looped
  refine ⟨answered, rest, replies, client, ?_⟩
  cases inner with
  | done madeProgress conn' =>
      rcases settled.done rfl with ⟨whole, state, buf⟩
      cases Prog.returns_ret_iff.mp left
      split
      · refine ⟨settled.requests, settled.answers, ?_, ?_⟩
        · rw [← settled.written]
          exact BufWriter.written_flush _
        · rintro _ _ ⟨⟩
          exact ⟨whole, state, buf⟩
      · exact settled
  | panicked conn' =>
      cases Prog.returns_ret_iff.mp left
      exact settled

/-- What a connection has done when it ends: it answered its requests, all of them
unless one panicked, and nothing stays in the buffer of its writer. -/
structure Finished (service : Service Op Res) (possible : (op : Op) → Res op → Prop)
    (events : List ReadEvent) (conn : Connection Client)
    (exit : Exit) (conn' : Connection Client) (answered rest : List Incoming)
    (replies : List RespType) (client : Client) : Prop where
  requests : requests service.target events conn.buf = answered ++ rest
  answers : Answered service possible answered conn.state replies client
  written : conn'.writer.written = conn.writer.written ++ replies.flatMap RespType.toBytes
  closed : exit = .closed → rest = [] ∧ client = conn'.state ∧ conn'.writer.buffer = []

theorem finished_handle {events : List ReadEvent} {exit : Exit} {conn' : Connection Client}
    (returns : (handle service events conn).Returns possible (exit, conn')) :
    ∃ answered rest replies client,
      Finished service possible events conn exit conn' answered rest replies client := by
  induction events generalizing conn with
  | nil =>
      cases Prog.returns_ret_iff.mp returns
      refine ⟨[], [], [], conn.state, rfl, .nil _, ?_, fun _ => ⟨rfl, rfl, rfl⟩⟩
      rw [List.flatMap_nil, List.append_nil]
      exact BufWriter.written_flush _
  | cons event events ih =>
      rw [handle_cons] at returns
      split at returns
      next waits =>
        obtain ⟨answered, rest, replies, client, finished⟩ := ih returns
        have skipped : requests service.target (event :: events) conn.buf =
            requests service.target events conn.buf := by
          rw [waits.1, waits.2, requests_of_wouldBlock]
        exact ⟨answered, rest, replies, client, skipped.trans finished.requests,
          finished.answers, finished.written, finished.closed⟩
      next ready =>
        cases got : conn.receive event with
        | none =>
            rw [got] at returns
            cases Prog.returns_ret_iff.mp returns
            refine ⟨[], [], [], conn.state, requests_of_end got events, .nil _, ?_,
              fun _ => ⟨rfl, rfl, rfl⟩⟩
            rw [List.flatMap_nil, List.append_nil]
            exact BufWriter.written_flush _
        | some received =>
            rw [got] at returns
            rcases Prog.returns_bind_iff.mp returns with ⟨drained, looped, left⟩
            obtain ⟨first, rest, replies, client, settled⟩ := settled_serveBuffered looped
            have found := requests_cons service.target got events
            rcases settled with ⟨requests, answers, written, done⟩
            rw [(kept_of_receive got).1] at answers
            rw [(kept_of_receive got).2] at written
            cases drained with
            | done madeProgress conn'' =>
                rcases done rfl with ⟨rfl, rfl, buf⟩
                obtain ⟨later, rest, replies', client', finished⟩ := ih left
                refine ⟨first ++ later, rest, replies ++ replies', client', ?_,
                  answers.append finished.answers, ?_, finished.closed⟩
                · rw [found, requests, buf, List.append_nil, List.append_assoc]
                  exact congrArg _ finished.requests
                · rw [finished.written, List.flatMap_append, ← List.append_assoc]
                  exact congrArg (· ++ _) written
            | panicked conn'' =>
                cases Prog.returns_ret_iff.mp left
                let unread := (requestsIn service.target received.buf).2.elim []
                  (Ember.requests service.target events)
                refine ⟨first, rest ++ unread, replies, client, ?_, answers, written, ?_⟩
                · rw [found, requests, List.append_assoc]
                · rintro ⟨⟩

end Task

end Ember
