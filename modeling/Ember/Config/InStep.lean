import Ember.Config.Replies
import Ember.Config.Requests

/-!
# Replies whatever else happens

The texts of the replies are fixed or carry their length also when other tasks change
the maps between two calls of a command.  A connection therefore stays in step with its
client under every interleaving: one frame comes back for each request, in order.
-/

namespace Ember

open Ember.Base Ember.Base.Framing Ember.Database Ember.Resp

/-- The map calls are answered somehow. -/
abbrev AnyAnswer : (op : Call) → op.Response → Prop :=
  Pool.Possible Call.step fun _ => True

namespace Task

variable {target : Target}

/-! ## The texts of the replies -/

/-- The only error of an update is that the value is not a list. -/
theorem failsWith_push {key : String} {fresh : List RedisObject}
    {update : List RedisObject → List RedisObject} {result : Outcome String Unit}
    (returns : (DB.push key fresh update).Returns AnyAnswer result) :
    result.FailsWith Printable := by
  rcases Prog.returns_call_iff.mp returns with ⟨answer, ⟨env, db, -, given⟩, rest⟩
  cases answer with
  | none =>
      rcases Prog.returns_call_iff.mp rest with ⟨_, _, last⟩
      cases Prog.returns_ret_iff.mp last
      exact Outcome.failsWith_ok ()
  | some updated =>
      cases Prog.returns_ret_iff.mp rest
      rw [Call.step] at given
      generalize db.data.lookup key = stored at given
      rcases stored with _ | (text | items)
      · cases given
      · cases given
        exact failsWith_fixed (by decide)
      · cases given
        exact Outcome.failsWith_ok ()

theorem failsWith_set {key : String} {value : RedisObject} {expiresAt : Option Instant}
    {result : Outcome String Unit}
    (returns : (DB.set key value expiresAt).Returns AnyAnswer result) :
    result.FailsWith Printable := by
  rcases Prog.returns_call_iff.mp returns with ⟨_, _, second⟩
  rcases Prog.returns_call_iff.mp second with ⟨_, _, rest⟩
  cases expiresAt with
  | none =>
      cases Prog.returns_ret_iff.mp rest
      exact Outcome.failsWith_ok ()
  | some deadline =>
      rcases Prog.returns_call_iff.mp rest with ⟨_, _, last⟩
      cases Prog.returns_ret_iff.mp last
      exact Outcome.failsWith_ok ()

theorem failsWith_delete {key : String} {result : Outcome String Unit}
    (returns : (DB.delete key).Returns AnyAnswer result) : result.FailsWith Printable := by
  rcases Prog.returns_call_iff.mp returns with ⟨_, _, second⟩
  rcases Prog.returns_call_iff.mp second with ⟨_, _, last⟩
  cases Prog.returns_ret_iff.mp last
  exact Outcome.failsWith_ok ()

theorem failsWith_get {key : String} {result : Outcome String RedisObject}
    (returns : (DB.get key).Returns AnyAnswer result) : result.FailsWith Printable := by
  rcases Prog.returns_bind_iff.mp returns with ⟨_ | _, _, rest⟩
  · rcases Prog.returns_call_iff.mp rest with ⟨_ | _, _, last⟩ <;>
    · cases Prog.returns_ret_iff.mp last
      exact Outcome.failsWith_ok _
  · cases Prog.returns_ret_iff.mp rest
    exact Outcome.failsWith_ok _

theorem failsWith_lrange {key : String} {start stop : Int32}
    {result : Outcome String RedisObject}
    (returns : (DB.lrange target key start stop).Returns AnyAnswer result) :
    result.FailsWith Printable := by
  rcases Prog.returns_bind_iff.mp returns with ⟨_ | _, _, rest⟩
  · rcases Prog.returns_call_iff.mp rest with ⟨_ | (text | items), _, last⟩
    · cases Prog.returns_ret_iff.mp last
      exact Outcome.failsWith_ok _
    · cases Prog.returns_ret_iff.mp last
      exact failsWith_fixed (by decide)
    · cases Prog.returns_ret_iff.mp last
      exact (Dispatcher.range_failsWith Printable start stop items).bind fun _ =>
        Outcome.failsWith_ok _
  · cases Prog.returns_ret_iff.mp rest
    exact Outcome.failsWith_ok _

theorem failsWith_expire {key : String} {expiresAt : Instant} {option : Option String}
    {result : Outcome String Unit}
    (returns : (DB.expire key expiresAt option).Returns AnyAnswer result) :
    result.FailsWith Printable := by
  rcases Prog.returns_call_iff.mp returns with ⟨_ | _, _, rest⟩
  · cases Prog.returns_ret_iff.mp rest
    exact failsWith_fixed (by decide)
  · have updates : ∃ replaces,
        (DB.updateExpiry key expiresAt option).Returns AnyAnswer replaces ∧ _ :=
      Prog.returns_bind_iff.mp rest
    rcases updates with ⟨_ | _ | _, -, left⟩
    · cases Prog.returns_ret_iff.mp left
      exact failsWith_fixed (by decide)
    · cases Prog.returns_ret_iff.mp left
      exact Outcome.failsWith_ok ()
    · rcases Prog.returns_call_iff.mp left with ⟨_, _, last⟩
      cases Prog.returns_ret_iff.mp last
      exact Outcome.failsWith_ok ()

theorem clean_replyWith {α : Type} {prog : DbProg (Outcome String α)}
    {reply : α → Outcome String RespType} {outcome : Outcome String RespType}
    (errors : ∀ {result}, prog.Returns AnyAnswer result → result.FailsWith Printable)
    (replies : ∀ value, Clean (reply value))
    (returns : (do return Dispatcher.replyWith reply (← prog) : DbProg _).Returns AnyAnswer
      outcome) : Clean outcome := by
  rcases Prog.returns_bind_iff.mp returns with ⟨result, made, last⟩
  cases Prog.returns_ret_iff.mp last
  cases result with
  | ok value => exact replies value
  | error e => exact clean_wrapped (by decide) (errors made e rfl)
  | panic => trivial

theorem clean_replyLrange (value : RedisObject) : Clean (Dispatcher.replyLrange value) := by
  cases value with
  | string text => exact clean_bulkString text
  | list items =>
      apply RespType.array_sound
      intro item member
      rcases List.mem_filterMap.mp member with ⟨stored, -, text⟩
      cases stored with
      | list items => cases text
      | string s =>
          cases text
          exact clean_bulkString s

theorem clean_replyGet (value : RedisObject) : Clean (Dispatcher.replyGet value) := by
  cases value with
  | string text => exact clean_bulkString text
  | list items => exact clean_fixedError (by decide)

/-- The replies of plain commands are clean, whatever the maps hold. -/
theorem clean_operation {c : Command} {prog : DbProg (Outcome String RespType)}
    {outcome : Outcome String RespType} (found : Dispatcher.operation target c = some prog)
    (returns : prog.Returns AnyAnswer outcome) : Clean outcome := by
  have ok : ∀ value, Clean (Dispatcher.simpleOk value) := fun _ => clean_fixedReply (by decide)
  cases c with
  | multi | discard | exec => cases found
  | ping | save =>
      cases found
      cases Prog.returns_ret_iff.mp returns
      exact clean_fixedReply (by decide)
  | echo msg =>
      cases found
      cases Prog.returns_ret_iff.mp returns
      exact clean_bulkString msg
  | set key value expiresAt =>
      cases found
      exact clean_replyWith failsWith_set ok returns
  | get key =>
      cases found
      exact clean_replyWith failsWith_get clean_replyGet returns
  | delete key =>
      cases found
      exact clean_replyWith failsWith_delete (fun _ => clean_bulkString "Ok") returns
  | lpush key values | rpush key values =>
      cases found
      exact clean_replyWith failsWith_push ok returns
  | lrange key start stop =>
      cases found
      exact clean_replyWith failsWith_lrange clean_replyLrange returns
  | expire key expiresAt option =>
      cases found
      exact clean_replyWith failsWith_expire ok returns

theorem clean_executeQueue
    {execute : Client → Command → DbProg (Option (Outcome String RespType × Client))}
    (each : ∀ {client c outcome client'},
      (execute client c).Returns AnyAnswer (some (outcome, client')) → Clean outcome)
    {queue : List Command} {replies : List RespType} {client client' : Client}
    {outcome : Outcome String RespType} (earlier : ∀ reply ∈ replies, Clean (.ok reply))
    (returns : (executeQueue execute queue replies client).Returns AnyAnswer
      (some (outcome, client'))) : Clean outcome := by
  induction queue generalizing replies client with
  | nil =>
      cases Prog.returns_ret_iff.mp returns
      exact RespType.array_sound earlier
  | cons c rest ih =>
      rcases Prog.returns_bind_iff.mp returns with ⟨_ | ⟨reply | e | _, next⟩, made, left⟩
      · cases Prog.returns_ret_iff.mp left
      · have all : ∀ old ∈ replies ++ [reply], Clean (.ok old) := by
          intro old member
          rcases List.mem_append.mp member with before | last
          · exact earlier old before
          · rw [List.mem_singleton.mp last]
            exact each made
        exact ih all left
      · cases Prog.returns_ret_iff.mp left
        exact clean_wrapped (by decide) (each made)
      · cases Prog.returns_ret_iff.mp left
        trivial

theorem clean_executeCommand {depth : ℕ} {client client' : Client} {cmd : Command}
    {outcome : Outcome String RespType}
    (returns : (executeCommand (.maps target) depth client cmd).Returns AnyAnswer
      (some (outcome, client'))) : Clean outcome := by
  induction depth generalizing client cmd outcome client' with
  | zero => cases Prog.returns_ret_iff.mp returns
  | succ depth ih =>
      by_cases controls : cmd.Controls
      · cases cmd with
        | multi | discard =>
            cases Prog.returns_ret_iff.mp returns
            exact clean_fixedReply (by decide)
        | exec => exact clean_executeQueue ih (by simp) returns
        | _ => exact controls.elim
      · rw [executeCommand_plain controls] at returns
        cases found : (Service.maps target).operation cmd with
        | none =>
            rw [found] at returns
            cases Prog.returns_ret_iff.mp returns
        | some prog =>
            rw [found] at returns
            rcases Prog.returns_bind_iff.mp returns with ⟨result, made, last⟩
            cases Prog.returns_ret_iff.mp last
            exact clean_operation found made

theorem clean_dispatch {depth : ℕ} {client client' : Client} {cmd : Command}
    {outcome : Outcome String RespType}
    (returns : (dispatch (.maps target) depth client cmd).Returns AnyAnswer
      (some (outcome, client'))) :
    Clean outcome := by
  unfold dispatch at returns
  split at returns
  · split at returns
    · cases Prog.returns_ret_iff.mp returns
      exact clean_fixedError (by decide)
    · exact clean_executeCommand returns
    · exact clean_executeCommand returns
    · cases Prog.returns_ret_iff.mp returns
      exact clean_fixedReply (by decide)
  · exact clean_executeCommand returns

/-- The reply to a frame is one line wherever it has to be. -/
theorem clean_serve {resp : RespType} (printable : ¬NameBreaksLine resp) {client client' : Client}
    {outcome : Outcome String RespType}
    (returns : (serve (.maps target) resp client).Returns AnyAnswer (outcome, client')) :
    Clean outcome := by
  rcases Prog.returns_call_iff.mp returns with ⟨now, -, rest⟩
  have extraction : (Command.extractCommand target now resp).FailsWith Printable := by
    unfold Command.extractCommand
    split
    · exact Command.parseCommand_printable (not_not.mp printable)
    · exact failsWith_fixed (by decide)
  have served : (dispatchExtracted (.maps target) client
    (Command.extractCommand target now resp)).Returns AnyAnswer (outcome, client') := rest
  cases extracted : Command.extractCommand target now resp with
  | ok cmd =>
      rw [extracted] at served
      rcases Prog.returns_bind_iff.mp served with ⟨_ | ⟨result, next⟩, made, last⟩
      · cases Prog.returns_ret_iff.mp last
        trivial
      · cases Prog.returns_ret_iff.mp last
        exact clean_dispatch made
  | error e =>
      rw [extracted] at served
      cases Prog.returns_ret_iff.mp served
      exact extraction e extracted
  | panic =>
      rw [extracted] at served
      cases Prog.returns_ret_iff.mp served
      trivial

end Task

/-! ## Malformed bytes -/

/-- An error of the parser with a printable message, if it has one. -/
def PrintableMessage : ParseError → Prop
  | .incomplete => True
  | .invalid message => Printable message

namespace Resp.Parser

variable {target : Target} {buf : List UInt8}

theorem ofOption_printable {α : Type} {message : String} (noCr : 13 ∉ utf8Bytes message)
    (x : Option α) :
    (Outcome.ofOption (ParseError.invalid message) x).FailsWith PrintableMessage := by
  cases x with
  | none => exact Outcome.failsWith_error (printable_of_noCr noCr)
  | some value => exact Outcome.failsWith_ok value

theorem parseLine_printable {α : Type} {skip : ℕ} {decode : List UInt8 → Outcome ParseError α}
    (decoded : ∀ data, (decode data).FailsWith PrintableMessage) :
    (parseLine skip decode buf).FailsWith PrintableMessage := by
  unfold parseLine
  split
  next data len found => exact (decoded data).bind fun _ => Outcome.failsWith_ok _
  next => exact Outcome.failsWith_error trivial

theorem parseHeader_printable : (parseHeader buf).FailsWith PrintableMessage := by
  apply parseLine_printable
  intro data
  apply (ofOption_printable (by decide) (fromUtf8 data)).bind
  intro text
  exact ofOption_printable (by decide) (parseUnsigned 64 text)

theorem slice_failsWith {α : Type} (P : ParseError → Prop) (items : List α) (start stop : ℕ) :
    (slice items start stop).FailsWith P := by
  unfold slice
  split
  · exact Outcome.failsWith_ok _
  · exact Outcome.failsWith_panic

theorem addUsize_failsWith (P : ParseError → Prop) (a b : ℕ) :
    (target.addUsize a b).FailsWith P := by
  unfold Target.addUsize
  split_ifs
  · exact Outcome.failsWith_ok _
  · exact Outcome.failsWith_panic
  · exact Outcome.failsWith_ok _

theorem parseBulkString_printable : (parseBulkString target buf).FailsWith PrintableMessage := by
  apply parseHeader_printable.bind
  rintro ⟨length, start⟩
  dsimp only
  unfold parseBulkBody
  apply (addUsize_failsWith PrintableMessage start length).bind
  intro dataEnd
  apply (addUsize_failsWith PrintableMessage dataEnd 2).bind
  intro frameEnd
  split
  · exact Outcome.failsWith_error trivial
  · apply (slice_failsWith PrintableMessage buf start dataEnd).bind
    intro data
    apply (slice_failsWith PrintableMessage buf dataEnd frameEnd).bind
    intro terminator
    split
    · exact Outcome.failsWith_error (printable_of_noCr (by decide))
    · exact (ofOption_printable (by decide) (fromUtf8 data)).bind fun _ => Outcome.failsWith_ok _

section

variable {parse : List UInt8 → Parsed} (elements : ∀ buf, (parse buf).FailsWith PrintableMessage)

include elements

theorem parseElements_printable (remaining : ℕ) (arr : List RespType) (bytesConsumed : ℕ) :
    (parseElements parse buf remaining arr bytesConsumed).FailsWith PrintableMessage := by
  induction remaining generalizing arr bytesConsumed with
  | zero => exact Outcome.failsWith_ok _
  | succ remaining ih =>
      rw [parseElements]
      apply (slice_failsWith PrintableMessage buf bytesConsumed buf.length).bind
      intro rest
      apply (elements rest).bind
      rintro ⟨element, len⟩
      exact ih _ _

theorem parseArray_printable : (parseArray target parse buf).FailsWith PrintableMessage := by
  apply parseHeader_printable.bind
  rintro ⟨arrLen, bytesConsumed⟩
  have room : (target.withCapacity arrLen).FailsWith PrintableMessage := by
    unfold Target.withCapacity
    split
    · exact Outcome.failsWith_ok _
    · exact Outcome.failsWith_panic
  exact room.bind fun _ => parseElements_printable elements _ _ _

theorem parserFor_printable (first : UInt8) :
    (parserFor target parse first buf).FailsWith PrintableMessage := by
  fun_cases parserFor target parse first with
  | case1 =>
      apply parseLine_printable
      intro data
      exact (ofOption_printable (by decide) (fromUtf8 data)).bind fun _ => Outcome.failsWith_ok _
  | case2 | case3 =>
      apply parseLine_printable
      intro data
      exact (ofOption_printable (by decide) (fromUtf8 data)).bind fun _ => Outcome.failsWith_ok _
  | case4 =>
      apply parseLine_printable
      intro data
      apply (ofOption_printable (by decide) (fromUtf8 data)).bind
      intro text
      exact (ofOption_printable (by decide) (parseSigned 63 text)).bind fun _ =>
        Outcome.failsWith_ok _
  | case5 => exact parseBulkString_printable
  | case6 => exact parseArray_printable elements
  | case7 => exact parseLine_printable fun _ => Outcome.failsWith_ok _
  | case8 =>
      apply parseLine_printable
      intro data
      unfold decodeBool
      split
      · exact Outcome.failsWith_ok _
      · exact Outcome.failsWith_ok _
      · exact Outcome.failsWith_error (printable_of_noCr (by decide))
  | case9 marked =>
      -- The markers are exactly the bytes that do not start an inline command.
      refine absurd ?_ marked
      unfold isInline
      split <;> simp_all

end

/-- What is said of malformed bytes fits on one line. -/
theorem parse_printable (target : Target) (buf : List UInt8) :
    (Parser.parse target buf).FailsWith PrintableMessage := by
  have within : ∀ depth buf, (parseWithin target depth buf).FailsWith PrintableMessage := by
    intro depth
    induction depth with
    | zero => exact fun _ => Outcome.failsWith_error trivial
    | succ depth ih =>
        rintro (_ | ⟨first, rest⟩)
        · exact Outcome.failsWith_error trivial
        · exact parserFor_printable ih first
  exact within buf.length buf

end Resp.Parser

/-! ## One reply for each request -/

theorem printable_of_mem_requestsIn {target : Target} {buf : List UInt8} {message : String}
    (member : .malformed message ∈ (requestsIn target buf).1) : Printable message := by
  have messages := Parser.parse_printable target (unframe (Parser.parse target) buf).2
  unfold requestsIn at member
  split at member
  next => simp at member
  next reason invalid =>
    simp only [List.mem_append, List.mem_map, reduceCtorEq, and_false, exists_false,
      List.mem_singleton, Incoming.malformed.injEq, false_or] at member
    rw [member]
    exact messages _ invalid
  next => simp at member
  next => simp at member

theorem printable_of_mem_requests {target : Target} {events : List ReadEvent} {buf : List UInt8}
    {message : String} (member : .malformed message ∈ requests target events buf) :
    Printable message := by
  induction events generalizing buf with
  | nil => cases member
  | cons event events ih =>
      let conn : Connection Unit := ⟨buf, .new .atFlush, ()⟩
      cases got : conn.receive event with
      | none =>
          rw [requests_of_end got] at member
          cases member
      | some received =>
          rw [requests_cons target got] at member
          rcases List.mem_append.mp member with here | later
          · exact printable_of_mem_requestsIn here
          · cases left : (requestsIn target received.buf).2 with
            | none =>
                rw [left] at later
                cases later
            | some rest =>
                rw [left] at later
                exact ih later

/-- The reply to the request is one frame. -/
def Incoming.Printed : Incoming → Prop
  | .frame resp => ¬NameBreaksLine resp
  | .malformed message => Printable message

theorem Answered.lineSafe {target : Target} {requests : List Incoming} {client last : Client}
    {replies : List RespType}
    (answered : Answered (.maps target) AnyAnswer requests client replies last)
    (printed : ∀ request ∈ requests, request.Printed) :
    ∀ reply ∈ replies, reply.LineSafe := by
  induction answered with
  | nil => simp
  | frame served given later ih =>
      rcases List.forall_mem_cons.mp printed with ⟨here, rest⟩
      rw [List.forall_mem_cons]
      exact ⟨answer_lineSafe (Task.clean_serve here served) given, ih rest⟩
  | @malformed message _ _ _ _ later ih =>
      rcases List.forall_mem_cons.mp printed with ⟨here, rest⟩
      have clean : Clean (.error message) := here
      rw [List.forall_mem_cons]
      exact ⟨answer_lineSafe clean rfl, ih rest⟩

/-- Replies that are sent one after the other are read back one after the other. -/
theorem unframe_replies (target : Target) {replies : List RespType}
    (safe : ∀ reply ∈ replies, reply.LineSafe)
    (fits : ∀ reply ∈ replies, reply.FitsInMemory target) :
    unframe (Parser.parse target) (replies.flatMap RespType.toBytes) =
      (replies.map RespType.norm, []) := by
  induction replies with
  | nil => exact unframe_of_not_ok fun _ _ => (Parser.parse_selfDelimiting target).nil
  | cons reply rest ih =>
      rcases List.forall_mem_cons.mp safe with ⟨safeHead, safeRest⟩
      rcases List.forall_mem_cons.mp fits with ⟨fitsHead, fitsRest⟩
      have accepted := Parser.parse_toBytes_append safeHead fitsHead
        (rest.flatMap RespType.toBytes)
      rw [List.flatMap_cons, unframe_of_ok (Parser.parse_selfDelimiting target) accepted,
        List.drop_left, ih safeRest fitsRest, List.map_cons]

/-- A connection among any other tasks, whatever the order of their calls.  It answers its
requests once each and in order, and what it has sent is a beginning of the replies.  If it
ends without a panic it has answered all requests and sent all replies, and a client gets
one frame for each of them back unless it sent the name of a command with a CR LF in it. -/
theorem connection_in_step (spill : Spill UInt8) (target : Target)
    (pool : Pool DB Call Call.Response (Exit × Connection Client)) (schedule : List (ℕ × Env))
    (i : ℕ) (events : List ReadEvent) (exit : Exit) (conn : Connection Client)
    (found : pool.threads[i]? = some (Task.connection spill (.maps target) events))
    (ended : (Pool.run Call.step pool schedule).threads[i]? = some (.ret (exit, conn))) :
    ∃ answered rest replies client, requests target events [] = answered ++ rest ∧
      Answered (.maps target) AnyAnswer answered Client.new replies client ∧
      replies.length = answered.length ∧
      conn.writer.sent <+: replies.flatMap RespType.toBytes ∧
      (exit = .closed → rest = [] ∧ conn.writer.sent = replies.flatMap RespType.toBytes ∧
        ((∀ resp, .frame resp ∈ requests target events [] → ¬NameBreaksLine resp) →
          (∀ reply ∈ replies, reply.FitsInMemory target) →
            unframe (Parser.parse target) conn.writer.sent = (replies.map RespType.norm, []))) := by
  have returns : (Task.connection spill (.maps target) events).Returns AnyAnswer (exit, conn) :=
    Pool.returns_of_run (fun _ => True) (fun _ _ _ => trivial) (fun _ _ => trivial) trivial found
      ended
  obtain ⟨answered, rest, replies, client, finished⟩ := Task.finished_handle returns
  have written : conn.writer.sent ++ conn.writer.buffer = replies.flatMap RespType.toBytes :=
    finished.written
  refine ⟨answered, rest, replies, client, finished.requests, finished.answers,
    finished.answers.length_eq, ⟨_, written⟩, fun closed => ?_⟩
  rcases finished.closed closed with ⟨whole, -, empty⟩
  have sent : conn.writer.sent = replies.flatMap RespType.toBytes := by
    rw [← written, empty, List.append_nil]
  refine ⟨whole, sent, fun names fits => ?_⟩
  have printed : ∀ request ∈ answered, request.Printed := by
    intro request member
    have listed : request ∈ requests target events [] :=
      finished.requests ▸ List.mem_append_left rest member
    cases request with
    | frame resp => exact names resp listed
    | malformed message => exact printable_of_mem_requests listed
  rw [sent]
  exact unframe_replies target (finished.answers.lineSafe printed) fits

/-- A client that sends the name of no command and then malformed bytes, while another
one deletes a key. -/
theorem connection_in_step_refused :
    let events := [ReadEvent.bytes (utf8Bytes "FOO\r\n#x\r\n")]
    let other := Task.connection .atFlush (.maps ⟨true, 24⟩) [.bytes (utf8Bytes "DELETE k\r\n")]
    let pool : Pool DB Call Call.Response (Exit × Connection Client) :=
      ⟨DB.newInMemory, [other, Task.connection .atFlush (.maps ⟨true, 24⟩) events]⟩
    let final := Pool.run Call.step pool ([0, 1, 0, 0].map fun i => (i, Env.at 0))
    let sent := utf8Bytes ("-Unknown command: FOO\r\n" ++
      "-Invalid value for boolean. Only \"t\" or \"f\" is accepted.\r\n")
    final.threads[1]? = some (.ret (.closed, ⟨[], ⟨.atFlush, sent, []⟩, Client.new⟩)) ∧
      ∃ replies : List RespType, replies.length = 2 ∧
        sent = replies.flatMap RespType.toBytes := by
  intro events other pool final sent
  have ended : final.threads[1]? =
      some (.ret (.closed, ⟨[], ⟨.atFlush, sent, []⟩, Client.new⟩)) := rfl
  obtain ⟨answered, rest, replies, client, found, -, length, -, closed⟩ :=
    connection_in_step .atFlush ⟨true, 24⟩ pool _ 1 events .closed _ rfl ended
  rcases closed rfl with ⟨whole, all, -⟩
  rw [whole, List.append_nil] at found
  refine ⟨ended, replies, ?_, all⟩
  rw [length, ← found]
  rfl

end Ember
