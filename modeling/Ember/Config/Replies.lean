import Ember.Command.Panics
import Ember.Config.Segmentation
import Ember.Resp.RoundTrip

/-!
# Replies

Simple strings and errors are written without their length, so that a CR LF in one
of them would end the reply early.  The texts of all replies but one are fixed: the
name of an unknown command is repeated as the client sent it.
-/

namespace Ember

open Ember.Base Ember.Database Ember.Resp

/-- A text without a CR LF, which can be written as one line. -/
def Printable (text : String) : Prop :=
  ¬RespType.crlf <:+: utf8Bytes text

theorem printable_of_noCr {text : String} (noCr : 13 ∉ utf8Bytes text) : Printable text :=
  Parser.not_crlf_infix noCr

/-- A reply whose simple texts are all printable, or an error with a printable
message. -/
def Clean : Outcome String RespType → Prop
  | .ok reply => reply.LineSafe ∧ reply.ErrorFree
  | .error e => Printable e
  | .panic => True

theorem crlf_infix_append_iff {front rest : List UInt8} (noCr : 13 ∉ front) :
    RespType.crlf <:+: front ++ rest ↔ RespType.crlf <:+: rest := by
  constructor
  · intro inside
    induction front with
    | nil => exact inside
    | cons b front ih =>
        rw [List.mem_cons, not_or] at noCr
        rw [List.cons_append, List.infix_cons_iff] at inside
        rcases inside with ⟨tail, first⟩ | later
        · rw [RespType.crlf, List.cons_append, List.cons.injEq] at first
          exact absurd first.1 noCr.1
        · exact ih noCr.2 later
  · intro inside
    exact inside.trans (List.suffix_append front rest).isInfix

theorem printable_append_iff {front text : String} (noCr : 13 ∉ utf8Bytes front) :
    Printable (front ++ text) ↔ Printable text := by
  rw [Printable, utf8Bytes_append, crlf_infix_append_iff noCr, Printable]

theorem clean_wrapped {front e : String} (noCr : 13 ∉ utf8Bytes front)
    (clean : Clean (.error e)) : Clean (.error (front ++ e)) :=
  (printable_append_iff noCr).mpr clean

theorem clean_bulkString (text : String) : Clean (.ok (.bulkString text)) :=
  RespType.leaf_sound rfl (by simp) (by simp)

theorem clean_simpleString {text : String} (printable : Printable text) :
    Clean (.ok (.simpleString text)) := by
  apply RespType.leaf_sound rfl
  · rintro _ ⟨⟩
    exact printable
  · simp

section

variable {text : String} (noCr : 13 ∉ utf8Bytes text)

include noCr

theorem clean_fixedError : Clean (.error text) :=
  printable_of_noCr noCr

theorem clean_fixedReply : Clean (.ok (.simpleString text)) :=
  clean_simpleString (printable_of_noCr noCr)

theorem failsWith_fixed {α : Type} : (.error text : Outcome String α).FailsWith Printable :=
  Outcome.failsWith_error (printable_of_noCr noCr)

end

/-! ## Replies of the dispatcher -/

namespace Dispatcher

variable {target : Target} {clock : ℕ → Instant}

theorem clean_simpleOk {result : Outcome String Unit}
    (errors : ∀ e, result = .error e → Clean (.error e)) : Clean (replyWith simpleOk result) := by
  cases result with
  | ok value => exact clean_fixedReply (by decide)
  | error e => exact clean_wrapped (by decide) (errors e rfl)
  | panic => trivial

theorem clean_push {now : Instant} {db : DB} {key : String} {fresh : List RedisObject}
    {update : List RedisObject → List RedisObject} :
    Clean (replyWith simpleOk (DB.exec now (DB.push key fresh update) db).1) := by
  apply clean_simpleOk
  intro e failed
  rw [DB.exec_push] at failed
  rcases found : db.data.lookup key with _ | (text | items)
  · rw [found] at failed
    cases failed
  · rw [found] at failed
    cases failed
    exact clean_fixedError (by decide)
  · rw [found] at failed
    cases failed

theorem fromEnd_failsWith (P : String → Prop) (len : ℕ) (index : Int32) :
    (DB.fromEnd target len index).FailsWith P := by
  unfold DB.fromEnd
  split
  · exact target.wrapI32_failsWith P _ _
  · exact Outcome.failsWith_ok index

theorem range_failsWith (P : String → Prop) (start stop : Int32) (list : List RedisObject) :
    (DB.range target start stop list).FailsWith P := by
  apply (fromEnd_failsWith P list.length start).bind
  intro first
  apply (fromEnd_failsWith P list.length stop).bind
  intro last
  exact Outcome.failsWith_ok _

theorem clean_lrange {start stop : Int32} (value : Option RedisObject) :
    Clean (replyWith replyLrange (DB.lrangeReply target start stop value)) := by
  rcases value with _ | (text | items)
  · exact clean_bulkString "nil"
  · exact clean_wrapped (by decide) (clean_fixedError (by decide))
  · have fails := @range_failsWith target Printable start stop items
    rw [DB.lrangeReply]
    cases result : DB.range target start stop items with
    | panic => trivial
    | error e => exact clean_wrapped (by decide) (fails e result)
    | ok items =>
        apply RespType.array_sound
        intro item member
        rcases List.mem_filterMap.mp member with ⟨stored, -, text⟩
        cases stored with
        | list items => cases text
        | string s =>
            cases text
            exact clean_bulkString s

/-- The texts of a plain command's reply are fixed, or carry their length. -/
theorem effect_clean {c : Command} (plain : ¬c.Controls) (now : Instant) (db : DB) :
    Clean (effect target now db c).1 := by
  cases c with
  | multi | discard | exec => exact absurd trivial plain
  | ping | save => exact clean_fixedReply (by decide)
  | echo msg => exact clean_bulkString msg
  | delete key => exact clean_bulkString "Ok"
  | set key value expiresAt =>
      rw [effect_set]
      exact clean_fixedReply (by decide)
  | get key =>
      rw [effect_get]
      rcases db.visible now key with _ | (text | items)
      · exact clean_bulkString "nil"
      · exact clean_bulkString text
      · exact clean_fixedError (by decide)
  | lpush key values =>
      rw [effect_lpush]
      exact clean_push
  | rpush key values =>
      rw [effect_rpush]
      exact clean_push
  | lrange key start stop =>
      rw [effect_lrange]
      exact clean_lrange (db.visible now key)
  | expire key expiresAt option =>
      rw [effect_expire]
      apply clean_simpleOk
      intro e failed
      rw [DB.exec_expire] at failed
      split at failed
      · split at failed
        · cases failed
        · cases failed
        · cases failed
          exact clean_fixedError (by decide)
      · cases failed
        exact clean_fixedError (by decide)

/-- The loop of EXEC puts clean replies together. -/
theorem executeQueue_clean
    {execute : Session → Command → Option (Outcome String RespType × Session)}
    (each : ∀ {session c outcome session'}, execute session c = some (outcome, session') →
      Clean outcome) {queue : List Command} {replies : List RespType} {session session' : Session}
    {outcome : Outcome String RespType} (earlier : ∀ reply ∈ replies, Clean (.ok reply))
    (ran : executeQueue execute queue replies session = some (outcome, session')) :
    Clean outcome := by
  induction queue generalizing replies session with
  | nil =>
      cases ran
      exact RespType.array_sound earlier
  | cons c rest ih =>
      rw [executeQueue] at ran
      split at ran
      next reply session replied =>
        have all : ∀ old ∈ replies ++ [reply], Clean (.ok old) := by
          intro old member
          rcases List.mem_append.mp member with before | last
          · exact earlier old before
          · rw [List.mem_singleton.mp last]
            exact each replied
        exact ih all ran
      next e session failed =>
        cases ran
        exact clean_wrapped (by decide) (each failed)
      next =>
        cases ran
        trivial
      next => cases ran

theorem executeCommand_clean {depth : ℕ} {session session' : Session} {cmd : Command}
    {outcome : Outcome String RespType}
    (ran : executeCommand target clock depth session cmd = some (outcome, session')) :
    Clean outcome := by
  induction depth generalizing session cmd outcome session' with
  | zero => cases ran
  | succ depth ih =>
      by_cases plain : cmd.Controls
      · cases cmd with
        | multi | discard =>
            cases ran
            exact clean_fixedReply (by decide)
        | exec => exact executeQueue_clean (fun replied => ih replied) (by simp) ran
        | _ => exact plain.elim
      · rw [executeCommand_plain target clock plain] at ran
        cases ran
        exact effect_clean plain _ _

theorem dispatch_clean {depth : ℕ} {session session' : Session} {cmd : Command}
    {outcome : Outcome String RespType}
    (ran : dispatch target clock depth session cmd = some (outcome, session')) :
    Clean outcome := by
  unfold dispatch at ran
  split at ran
  · split at ran
    · cases ran
      exact clean_fixedError (by decide)
    · exact executeCommand_clean ran
    · exact executeCommand_clean ran
    · cases ran
      exact clean_fixedReply (by decide)
  · exact executeCommand_clean ran

end Dispatcher

/-! ## Errors of the extraction -/

namespace Command

variable {target : Target} {now : Instant} {args : List RespType}

theorem argument_printable (i : ℕ) : (argument args i).FailsWith Printable := by
  unfold argument
  split
  · exact Outcome.failsWith_ok _
  · exact Outcome.failsWith_panic

theorem parseText_printable {command : String → Command} {message : String}
    (printable : Printable message) : (parseText args command message).FailsWith Printable := by
  apply (argument_printable 0).bind
  intro arg
  split
  · exact Outcome.failsWith_ok _
  · exact Outcome.failsWith_error printable

theorem parseSetExpiry_printable {flag expiresIn : RespType} :
    (parseSetExpiry target now flag expiresIn).FailsWith Printable := by
  unfold parseSetExpiry
  split
  next flag expiresIn =>
    split
    · apply (target.mulI32_failsWith Printable (parseInt expiresIn) 1000).bind
      intro millis
      exact Outcome.failsWith_ok _
    · split
      · exact Outcome.failsWith_ok _
      · exact failsWith_fixed (by decide)
  next =>
    exact failsWith_fixed (by decide)

theorem parseSet_printable : (parseSet target now args).FailsWith Printable := by
  unfold parseSet
  split
  · exact failsWith_fixed (by decide)
  · apply (argument_printable 0).bind
    intro key
    apply (argument_printable 1).bind
    intro value
    split
    · split
      · exact Outcome.failsWith_ok _
      · apply (argument_printable 2).bind
        intro flag
        apply (argument_printable 3).bind
        intro expiresIn
        exact parseSetExpiry_printable.bind fun _ => Outcome.failsWith_ok _
    · exact failsWith_fixed (by decide)

theorem parseLrange_printable : (parseLrange args).FailsWith Printable := by
  apply (argument_printable 0).bind
  intro key
  apply (argument_printable 1).bind
  intro start
  apply (argument_printable 2).bind
  intro stop
  split
  · exact Outcome.failsWith_ok _
  · exact failsWith_fixed (by decide)

theorem parseExpireOption_printable : (parseExpireOption args).FailsWith Printable := by
  unfold parseExpireOption
  split
  · apply (argument_printable 2).bind
    intro option
    split
    · split
      · exact Outcome.failsWith_ok _
      · exact failsWith_fixed (by decide)
    · exact failsWith_fixed (by decide)
  · exact Outcome.failsWith_ok _

theorem parseExpire_printable : (parseExpire now args).FailsWith Printable := by
  apply (argument_printable 0).bind
  intro key
  apply (argument_printable 1).bind
  intro expiresIn
  split
  · exact parseExpireOption_printable.bind fun _ => Outcome.failsWith_ok _
  · exact failsWith_fixed (by decide)

/-- The only message that is not fixed repeats the name of the command. -/
theorem parseCommand_printable {cmd : String} (printable : Printable cmd) :
    (parseCommand target now cmd args).FailsWith Printable := by
  fun_cases parseCommand target now cmd args with
  | case2 | case4 | case5 | case6 | case7 =>
      exact parseText_printable (printable_of_noCr (by decide))
  | case3 => exact parseSet_printable
  | case8 => exact parseLrange_printable
  | case9 => exact parseExpire_printable
  | case1 | case10 | case11 | case12 | case13 | case14 => exact Outcome.failsWith_ok _
  | case15 =>
      exact Outcome.failsWith_error ((printable_append_iff (by decide)).mpr printable)

/-- A name that is not printable is not that of a command. -/
theorem parseCommand_of_not_printable {cmd : String} (broken : ¬Printable cmd) :
    parseCommand target now cmd args = .error ("Unknown command: " ++ cmd) := by
  fun_cases parseCommand target now cmd args with
  | case15 => rfl
  | _ => exact absurd (printable_of_noCr (by decide)) broken

end Command

/-- The name of a command, in upper case as the reply would have it, contains a
CR LF. -/
def NameBreaksLine : RespType → Prop
  | .array (.bulkString name :: _) => ¬Printable (toAsciiUppercase name)
  | _ => False

namespace Client

variable {target : Target} {clock : ℕ → Instant} {frame : RespType} {session : Session}

theorem serve_clean (printable : ¬NameBreaksLine frame) :
    Clean (serve target clock frame session).1 := by
  have extraction : (Command.extractCommand target (clock session.tick) frame).FailsWith
      Printable := by
    unfold Command.extractCommand
    split
    · exact Command.parseCommand_printable (not_not.mp printable)
    · exact failsWith_fixed (by decide)
  unfold serve
  cases extracted : Command.extractCommand target (clock session.tick) frame with
  | ok cmd =>
      dsimp only
      cases ran : Dispatcher.dispatch target clock 2 { session with tick := session.tick + 1 }
          cmd with
      | none => trivial
      | some result => exact Dispatcher.dispatch_clean ran
  | error e => exact extraction e extracted
  | panic => trivial

theorem serve_of_nameBreaksLine (broken : NameBreaksLine frame) :
    ∃ e, ¬Printable e ∧ (serve target clock frame session).1 = .error e := by
  unfold NameBreaksLine at broken
  split at broken
  next name args =>
    refine ⟨"Unknown command: " ++ toAsciiUppercase name, ?_, ?_⟩
    · rwa [printable_append_iff (by decide)]
    · rw [serve, Command.extractCommand, Command.parseCommand_of_not_printable broken]
  next => exact broken.elim

end Client

theorem answer_lineSafe {result : Outcome String RespType} {reply : RespType} (clean : Clean result)
    (given : answer result = some reply) : reply.LineSafe := by
  cases result with
  | ok res =>
      cases given
      exact clean.1
  | error e =>
      cases given
      intro text inside
      simp only [RespType.nodes, List.mem_singleton, reduceCtorEq, false_or,
        RespType.simpleError.injEq] at inside
      rw [inside]
      exact clean
  | panic => cases given

/-- An error with a CR LF in it is not read back as one frame. -/
theorem parse_simpleError_ne {target : Target} {e : String} (broken : ¬Printable e)
    (value : RespType) : Parser.parse target (RespType.simpleError e).toBytes ≠
      .ok (value, (RespType.simpleError e).toBytes.length) := by
  have selected : Parser.parserFor target (Parser.parse target) 45 = Parser.parseSimple := rfl
  rw [RespType.toBytes_simpleError, Parser.parse_eq, List.cons_append, Parser.parseStep, selected]
  intro parsed
  rcases Parser.parseLine_eq_ok_iff.mp parsed with ⟨data, len, found, -, whole⟩
  rcases Parser.readUntilCrlf_eq_some_iff.mp found with ⟨⟨rest, cut⟩, clean, rfl⟩
  -- The line that was read is as long as the message.
  have length : data.length = (utf8Bytes e).length := by
    simp only [List.length_append, List.length_cons, RespType.crlf, List.length_nil] at whole
    omega
  rw [List.append_assoc] at cut
  have same : data = utf8Bytes e := (List.append_inj cut length).1
  rw [same] at clean
  exact broken clean

/-! ## Frames without a reply -/

namespace Client

/-- The frame brings the connection down: an argument is missing, a number of seconds is
too large, or a range of a list that is too long is asked for, by itself or by a command
of the queue that EXEC runs. -/
def FramePanics (target : Target) (clock : ℕ → Instant) (session : Session) : RespType → Prop
  | .array (.bulkString name :: args) =>
      args.length < Command.requiredArguments (toAsciiUppercase name) ∨
      (toAsciiUppercase name = "SET" ∧ target.overflowChecks = true ∧
        Command.SecondsOverflow args) ∨
      (toAsciiUppercase name = "LRANGE" ∧ session.client.inTransaction = false ∧
        ∃ key start stop rest,
          args = .bulkString key :: .bulkString start :: .bulkString stop :: rest ∧
            Dispatcher.RangePanics target (clock (session.tick + 1)) session.db
              (.lrange key (Command.parseInt start) (Command.parseInt stop))) ∨
      (toAsciiUppercase name = "EXEC" ∧ Dispatcher.QueuePanics target clock (session.tick + 1)
        session.db session.client.queuedCommands)
  | _ => False

variable {target : Target} {clock : ℕ → Instant} {session : Session}

theorem serve_of_extracted (wf : session.client.WellFormed) {frame : RespType} {cmd : Command}
    (extracted : Command.extractCommand target (clock session.tick) frame = .ok cmd) :
    (serve target clock frame session).1 = .panic ↔
      Dispatcher.Panics target clock { session with tick := session.tick + 1 } cmd := by
  let next : Session := { session with tick := session.tick + 1 }
  have panicIff := @Dispatcher.dispatch_eq_panic_iff target clock next wf 0 cmd
  rcases Dispatcher.dispatch_transition target clock 0 next wf cmd with ⟨outcome, session', ran, -⟩
  rw [serve, extracted]
  dsimp only [next] at ran panicIff ⊢
  rw [ran] at panicIff ⊢
  rw [← panicIff]
  simp

/-- A frame has no reply exactly when it brings the connection down. -/
theorem serve_eq_panic_iff (wf : session.client.WellFormed) (frame : RespType) :
    (serve target clock frame session).1 = .panic ↔ FramePanics target clock session frame := by
  unfold FramePanics
  split
  next name args =>
    have extraction := @Command.parseCommand_eq_panic_iff target (clock session.tick) args
      (toAsciiUppercase name)
    rw [← or_assoc, ← extraction]
    cases parsed :
        Command.parseCommand target (clock session.tick) (toAsciiUppercase name) args with
    | panic =>
        rw [serve, Command.extractCommand, parsed]
        simp
    | error e =>
        refine iff_of_false ?_ ?_
        · rw [serve, Command.extractCommand, parsed]
          rintro ⟨⟩
        · rintro (panics | ⟨lrange, -, key, start, stop, rest, rfl, -⟩ | ⟨exec, -⟩)
          · cases panics
          · rw [lrange] at parsed
            cases parsed
          · rw [exec] at parsed
            cases parsed
    | ok cmd =>
        have extracted : Command.extractCommand target (clock session.tick)
          (.array (.bulkString name :: args)) = .ok cmd := parsed
        rw [serve_of_extracted wf extracted]
        rcases Command.parseCommand_cases parsed with
          ⟨exec, rfl⟩ | ⟨lrange, made⟩ | ⟨notExec, notLrange, other, others⟩
        · simp [exec, Dispatcher.Panics]
        · rcases Command.parseLrange_eq_ok_iff.mp made with ⟨key, start, stop, rest, rfl, rfl⟩
          simp [lrange, Dispatcher.Panics]
        · simp only [notExec, notLrange, reduceCtorEq, false_and, or_self, iff_false]
          cases cmd with
          | exec => exact absurd rfl other
          | lrange key start stop => exact absurd rfl (others key start stop)
          | _ => exact And.right
  next other =>
    refine iff_of_false ?_ id
    rw [serve, Command.extractCommand]
    · rintro ⟨⟩
    · exact other

end Client

/-- The bytes written in answer to a frame are one frame, whatever comes behind them, if
and only if the name of the command does not contain a CR LF and the frame does not bring
the connection down. -/
theorem reply_is_one_frame_iff (target : Target) (clock : ℕ → Instant)
    {conn : Connection Session} (wf : conn.state.client.WellFormed) {frame : RespType}
    {consumed : ℕ} (accepted : Parser.parse target conn.buf = .ok (frame, consumed))
    (fits : ∀ reply, answer (Client.serve target clock frame conn.state).1 = some reply →
      reply.FitsInMemory target) (pipelineCount : ℕ) (madeProgress : Bool) :
    (∃ bytes, (Connection.drain target (Client.serve target clock) 1 pipelineCount madeProgress
        conn).written = conn.writer.written ++ bytes ∧
      ∀ suffix, ∃ value, Parser.parse target (bytes ++ suffix) = .ok (value, bytes.length)) ↔
    ¬NameBreaksLine frame ∧ ¬Client.FramePanics target clock conn.state frame := by
  rw [← Client.serve_eq_panic_iff wf]
  rcases @Connection.served_drain_of_ok _ _ (Client.serve target clock) 0 pipelineCount
      madeProgress _ _ _ accepted with ⟨reply, count, conn', given, step, next⟩ | ⟨given, step⟩
  · have written : conn'.writer.written = conn.writer.written ++ reply.toBytes :=
      congrArg Served.written next
    have replies : (Client.serve target clock frame conn.state).1 ≠ .panic := by
      intro panics
      rw [panics] at given
      cases given
    have same : (Connection.drain target (Client.serve target clock) 0 count true conn').written =
        conn'.writer.written := rfl
    rw [step, same, written, and_iff_left replies]
    constructor
    · rintro ⟨bytes, same, oneFrame⟩ broken
      obtain rfl := List.append_cancel_left same
      rcases Client.serve_of_nameBreaksLine broken with ⟨e, message, refused⟩
      rw [refused] at given
      cases given
      rcases oneFrame [] with ⟨value, parsed⟩
      rw [List.append_nil] at parsed
      exact parse_simpleError_ne message value parsed
    · intro printable
      refine ⟨reply.toBytes, rfl, fun suffix => ⟨reply.norm, ?_⟩⟩
      have safe := answer_lineSafe (Client.serve_clean printable) given
      exact Parser.parse_toBytes_append safe (fits reply given) suffix
  · refine iff_of_false ?_ fun both => both.2 ?_
    · rintro ⟨bytes, same, oneFrame⟩
      -- Nothing was written, and nothing is not a frame.
      obtain rfl : bytes = [] := by
        rw [step] at same
        exact List.append_right_eq_self.mp same.symm
      rcases oneFrame [] with ⟨value, parsed⟩
      exact (Parser.parse_selfDelimiting target).nil parsed
    · generalize (Client.serve target clock frame conn.state).1 = outcome at given
      cases outcome <;> first | rfl | cases given

/-- A message that looks like the end of its own frame. -/
theorem reply_is_one_frame_iff_echo :
    let conn : Connection Session := ⟨utf8Bytes "*2\r\n$4\r\nECHO\r\n$5\r\na\r\n+b\r\n",
      .new .atFlush, ⟨Client.new, DB.newInMemory, 0⟩⟩
    ∃ bytes, (Connection.drain ⟨true, 24⟩ (Client.serve ⟨true, 24⟩ fun _ => 0) 1 0 false
        conn).written = bytes ∧
      ∃ value, Parser.parse ⟨true, 24⟩ (bytes ++ utf8Bytes "+c") = .ok (value, bytes.length) := by
  intro conn
  have fits : ∀ reply, answer (Client.serve ⟨true, 24⟩ (fun _ => 0)
      (.array [.bulkString "ECHO", .bulkString "a\r\n+b"]) conn.state).1 = some reply →
        reply.FitsInMemory ⟨true, 24⟩ := by
    rintro reply ⟨⟩
    constructor
    · decide
    · intro items inside
      cases List.mem_singleton.mp inside
  have wf : conn.state.client.WellFormed := Client.wellFormed_of_queue_nil false
  have calm : ¬Client.FramePanics ⟨true, 24⟩ (fun _ => 0) conn.state
      (.array [.bulkString "ECHO", .bulkString "a\r\n+b"]) := by
    rintro (short | ⟨set, -⟩ | ⟨lrange, -⟩ | ⟨exec, -⟩)
    · exact absurd short (by decide)
    · exact absurd set (by decide)
    · exact absurd lrange (by decide)
    · exact absurd exec (by decide)
  obtain ⟨bytes, written, oneFrame⟩ := (reply_is_one_frame_iff ⟨true, 24⟩ (fun _ => 0) wf rfl fits
    0 false).mpr ⟨not_not.mpr (printable_of_noCr (by decide)), calm⟩
  exact ⟨bytes, written, oneFrame _⟩

/-- A command name with a CR LF in it is answered by two frames. -/
theorem reply_injected_by_name :
    let frame := RespType.array [.bulkString "x\r\n+y"]
    let reply := RespType.simpleError "Unknown command: X\r\n+Y"
    let conn : Connection Session := Connection.new .atFlush ⟨Client.new, DB.newInMemory, 0⟩
    Parser.parse ⟨true, 24⟩ (utf8Bytes "*1\r\n$5\r\nx\r\n+y\r\n") = .ok (frame, 15) ∧
    answer (Client.serve ⟨true, 24⟩ (fun _ => 0) frame conn.state).1 = some reply ∧
    (conn.reply reply).writer.written = utf8Bytes "-Unknown command: X\r\n+Y\r\n" ∧
    Parser.parse ⟨true, 24⟩ (utf8Bytes "-Unknown command: X\r\n+Y\r\n") =
      .ok (.simpleString "Unknown command: X", 21) ∧
    Parser.parse ⟨true, 24⟩ ((utf8Bytes "-Unknown command: X\r\n+Y\r\n").drop 21) =
      .ok (.simpleString "Y", 4) := by
  exact ⟨rfl, rfl, rfl, rfl, rfl⟩

end Ember
