import Ember.Base.Rely
import Ember.Config.Footprint

/-!
# Connections over different services

A connection asks for the clock and for commands to be executed, and does not care how
that is done.  If one service is another one with its actions replaced by programs, then
so are their connections.  In particular every connection is one that only asks, with
what it asks for replaced by what is done about it.
-/

namespace Ember

open Ember.Base Ember.Database Ember.Resp

section Expansion

variable {Act : Type} {Out : Act → Type} {Op : Type} {Res : Op → Type}

/-- One service is the other with its actions replaced by programs. -/
structure Service.Expands (impl : (act : Act) → Prog Op Res (Out act)) (spec : Service Act Out)
    (service : Service Op Res) : Prop where
  target : spec.target = service.target
  now : spec.now.expand impl = service.now
  operation : ∀ c, (spec.operation c).map (Prog.expand impl) = service.operation c

namespace Task

variable {impl : (act : Act) → Prog Op Res (Out act)} {spec : Service Act Out}
  {service : Service Op Res}

theorem expand_executeQueue
    {execute : Client → Command → Prog Act Out (Option (Outcome String RespType × Client))}
    {execute' : Client → Command → Prog Op Res (Option (Outcome String RespType × Client))}
    (each : ∀ client c, (execute client c).expand impl = execute' client c)
    (queue : List Command) (replies : List RespType) (client : Client) :
    (executeQueue execute queue replies client).expand impl =
      executeQueue execute' queue replies client := by
  induction queue generalizing replies client with
  | nil => rfl
  | cons c rest ih =>
      rw [executeQueue, executeQueue, Prog.expand_bind, each]
      congr 1
      funext result
      rcases result with _ | ⟨reply | e | _, next⟩
      · rfl
      · exact ih _ _
      · rfl
      · rfl

theorem expand_executeCommand (expands : spec.Expands impl service) (depth : ℕ) (client : Client)
    (cmd : Command) :
    (executeCommand spec depth client cmd).expand impl =
      executeCommand service depth client cmd := by
  induction depth generalizing client cmd with
  | zero => rfl
  | succ depth ih =>
      by_cases controls : cmd.Controls
      · cases cmd with
        | multi | discard => rfl
        | exec => exact expand_executeQueue ih ..
        | _ => exact controls.elim
      · rw [executeCommand_plain controls, executeCommand_plain controls,
          ← expands.operation cmd]
        cases spec.operation cmd with
        | none => rfl
        | some prog => exact Prog.expand_bind ..

theorem expand_dispatch (expands : spec.Expands impl service) (depth : ℕ) (client : Client)
    (cmd : Command) :
    (dispatch spec depth client cmd).expand impl = dispatch service depth client cmd := by
  have executed := expand_executeCommand expands depth client cmd
  unfold dispatch
  split
  · split
    · rfl
    · exact executed
    · exact executed
    · rfl
  · exact executed

theorem expand_serve (expands : spec.Expands impl service) (resp : RespType) (client : Client) :
    (serve spec resp client).expand impl = serve service resp client := by
  rw [serve, serve, Prog.expand_bind, expands.now, expands.target]
  congr 1
  funext now
  cases Command.extractCommand service.target now resp with
  | ok cmd =>
      rw [dispatchExtracted, dispatchExtracted, Prog.expand_bind, expand_dispatch expands]
      rfl
  | error e => rfl
  | panic => rfl

theorem expand_drain (expands : spec.Expands impl service) (fuel pipelineCount : ℕ)
    (madeProgress : Bool) (conn : Connection Client) :
    (drain spec fuel pipelineCount madeProgress conn).expand impl =
      drain service fuel pipelineCount madeProgress conn := by
  induction fuel generalizing pipelineCount madeProgress conn with
  | zero => rfl
  | succ fuel ih =>
      rw [drain_succ, drain_succ, expands.target]
      split
      · rfl
      · cases Parser.parse service.target conn.buf with
        | ok accepted =>
            rcases accepted with ⟨resp, consumed⟩
            dsimp only
            rw [Prog.expand_bind, expand_serve expands]
            congr 1
            funext served
            rcases served with ⟨res | e | _, client⟩
            · dsimp only
              split
              · exact ih ..
              · exact ih ..
            · exact ih ..
            · rfl
        | error reason => cases reason <;> rfl
        | panic => rfl

theorem expand_serveBuffered (expands : spec.Expands impl service) (conn : Connection Client) :
    (serveBuffered spec conn).expand impl = serveBuffered service conn := by
  rw [serveBuffered_eq, serveBuffered_eq, Prog.expand_bind, expand_drain expands]
  congr 1
  funext drained
  cases drained <;> rfl

theorem expand_handle (expands : spec.Expands impl service) (events : List ReadEvent)
    (conn : Connection Client) :
    (handle spec events conn).expand impl = handle service events conn := by
  induction events generalizing conn with
  | nil => rfl
  | cons event events ih =>
      rw [handle_cons, handle_cons]
      split
      · exact ih conn
      · cases conn.receive event with
        | none => rfl
        | some received =>
            dsimp only
            rw [Prog.expand_bind, expand_serveBuffered expands]
            congr 1
            funext drained
            cases drained with
            | done madeProgress conn' => exact ih conn'
            | panicked conn' => rfl

end Task

end Expansion

/-! ## Connections that only ask -/

/-- What a connection asks for. -/
inductive Ask where
  | clock
  | execute (c : Command)

namespace Ask

/-- What is answered to a connection. -/
abbrev Response : Ask → Type
  | clock => Instant
  | execute _ => Outcome String RespType

/-- An allowed command, if any. -/
def Within (allowed : Command → Prop) : Ask → Prop
  | clock => True
  | execute c => allowed c

end Ask

/-- A connection only asks. -/
def Service.asks (target : Target) : Service Ask Ask.Response :=
  ⟨target, Prog.perform Ask.clock,
    fun c => (Dispatcher.operation target c).map fun _ => Prog.perform (Ask.execute c)⟩

/-- What another service does about it. -/
def Ask.answeredBy {Op : Type} {Res : Op → Type} (service : Service Op Res) :
    (ask : Ask) → Prog Op Res ask.Response
  | clock => service.now
  | execute c => (service.operation c).getD (return .panic)

section Asks

variable {Op : Type} {Res : Op → Type} {service : Service Op Res}

theorem expands_asks
    (same : ∀ c, (service.operation c).isSome = (Dispatcher.operation service.target c).isSome) :
    (Service.asks service.target).Expands (Ask.answeredBy service) service where
  target := rfl
  now := Prog.expand_perform ..
  operation := by
    intro c
    change Option.map _ (Option.map _ _) = service.operation c
    have both := same c
    cases found : Dispatcher.operation service.target c with
    | none =>
        rw [found, Option.isSome_none, Option.isSome_eq_false_iff, Option.isNone_iff_eq_none]
          at both
        rw [both]
        rfl
    | some plain =>
        rw [found, Option.isSome_some, Option.isSome_iff_exists] at both
        rcases both with ⟨prog, here⟩
        rw [Option.map_some, Option.map_some, Prog.expand_perform, Ask.answeredBy, here,
          Option.getD_some]

theorem covers_asks (target : Target) (allowed : Command → Prop) :
    Covers (.asks target) allowed (Ask.Within allowed) where
  clock := ⟨trivial, fun _ => trivial⟩
  operation := by
    intro c prog asked found
    rcases Option.map_eq_some_iff.mp found with ⟨plain, -, rfl⟩
    exact ⟨asked, fun _ => trivial⟩

/-- If each thing that a connection asks for keeps an invariant and is answered in a
possible way, then the connection is one whose asks are answered so. -/
theorem Task.triple_handle {σ E : Type} {setting : Setting σ E Op Res} {admits : E → Prop}
    {inv : σ → Prop} {readable : Instant → Prop} {allowed : Command → Prop}
    {possible : (ask : Ask) → ask.Response → Prop}
    (same : ∀ c, (service.operation c).isSome = (Dispatcher.operation service.target c).isSome)
    (stable : Stable setting.rely inv) (reads : ∀ now, possible .clock now → readable now)
    (each : ∀ ask, ask.Within allowed → Prog.Triple setting admits inv (ask.answeredBy service)
      fun answer state => inv state ∧ possible ask answer)
    {events : List ReadEvent} {conn : Connection Client}
    (frames : ∀ resp, .frame resp ∈ requests service.target events conn.buf →
      AsksAt readable service.target allowed resp)
    (queued : conn.state.Queues allowed) :
    Prog.Triple setting admits inv (Task.handle service events conn) fun result state =>
      inv state ∧ (Task.handle (.asks service.target) events conn).Returns possible result := by
  rw [← Task.expand_handle (expands_asks same)]
  apply Prog.Triple.expand stable each
  have clock : ∀ now, (Service.asks service.target).now.Returns possible now → readable now := by
    intro now returns
    rcases Prog.returns_call_iff.mp returns with ⟨reading, given, last⟩
    cases Prog.returns_ret_iff.mp last
    exact reads now given
  exact Task.calls_handle clock (covers_asks service.target allowed) frames queued

/-- For an invariant of one key: commands on other keys need not be looked at one by
one. -/
theorem Ask.triple_answeredBy {target : Target} {key : String}
    {setting : Setting DB Env Call Call.Response} {admits : Env → Prop} {inv : DB → Prop}
    {allowed : Command → Prop} {possible : (ask : Ask) → ask.Response → Prop}
    (clock : Prog.Triple setting admits inv (perform .now)
      fun now db => inv db ∧ possible .clock now)
    (own : ∀ c prog, allowed c → c.key = some key → Dispatcher.operation target c = some prog →
      Prog.Triple setting admits inv prog
        fun outcome db => inv db ∧ possible (.execute c) outcome)
    (others : ∀ prog : DbProg (Outcome String RespType),
      (prog.Calls fun op => ∃ key', key' ≠ key ∧ op.On key') →
        Prog.Triple setting admits inv prog fun _ => inv)
    (free : ∀ c outcome, c.key ≠ some key → possible (.execute c) outcome)
    (ask : Ask) (within : ask.Within allowed) :
    Prog.Triple setting admits inv (ask.answeredBy (.maps target))
      fun answer db => inv db ∧ possible ask answer := by
  cases ask with
  | clock => exact clock
  | execute c =>
      have made : Ask.answeredBy (.maps target) (.execute c) =
          (Dispatcher.operation target c).getD (return .panic) := rfl
      rw [made]
      by_cases same : c.key = some key
      · cases found : Dispatcher.operation target c with
        | none => cases c <;> cases found <;> cases same
        | some prog => exact own c prog within same found
      · cases found : Dispatcher.operation target c with
        | none =>
            exact .ret clock.stable fun db holds => ⟨holds, free c _ same⟩
        | some prog =>
            have calls : prog.Calls fun op => ∃ key', key' ≠ key ∧ op.On key' := by
              apply (Isolation.calls_operation found).mono
              rintro op ⟨key', named, on⟩
              refine ⟨key', ?_, on⟩
              rintro rfl
              exact same named
            apply (others prog calls).weaken clock.stable fun _ => id
            exact fun outcome db holds => ⟨holds, free c outcome same⟩

/-- The outcomes of a frame that can only ask for one plain command. -/
theorem Task.returns_serve_asks {target : Target}
    {possible : (ask : Ask) → ask.Response → Prop} {c : Command} (plain : ¬c.Controls)
    {resp : RespType} {client next : Client} {outcome : Outcome String RespType}
    (served : (Task.serve (.asks target) resp client).Returns possible (outcome, next))
    (asks : Asks target (· = c) resp) :
    (∃ e, outcome = .error e) ∨ outcome = .panic ∨ outcome = .ok (.simpleString "QUEUED") ∨
      possible (.execute c) outcome := by
  rcases Task.returns_serve_plain plain served asks with failed | panics | held | ⟨prog, found, ran⟩
  · exact Or.inl failed
  · exact Or.inr (Or.inl panics)
  · exact Or.inr (Or.inr (Or.inl held))
  · rcases Option.map_eq_some_iff.mp found with ⟨plain, -, rfl⟩
    rcases Prog.returns_call_iff.mp ran with ⟨reply, given, last⟩
    cases Prog.returns_ret_iff.mp last
    exact Or.inr (Or.inr (Or.inr given))

theorem Task.possible_of_executed {possible : (ask : Ask) → ask.Response → Prop}
    {target : Target} {depth : ℕ} {client next : Client} {c : Command}
    {outcome : Outcome String RespType} (plain : ¬c.Controls)
    (returns : (Task.executeCommand (.asks target) depth client c).Returns possible
      (some (outcome, next))) : possible (.execute c) outcome := by
  cases depth with
  | zero => cases Prog.returns_ret_iff.mp returns
  | succ depth =>
      rw [Task.executeCommand_plain plain] at returns
      cases found : (Service.asks target).operation c with
      | none =>
          rw [found] at returns
          cases Prog.returns_ret_iff.mp returns
      | some prog =>
          rw [found] at returns
          rcases Option.map_eq_some_iff.mp found with ⟨_, -, rfl⟩
          rcases Prog.returns_bind_iff.mp returns with ⟨result, made, last⟩
          cases Prog.returns_ret_iff.mp last
          rcases Prog.returns_call_iff.mp made with ⟨reply, given, same⟩
          cases Prog.returns_ret_iff.mp same
          exact given

theorem Task.returns_executeQueue {possible : (ask : Ask) → ask.Response → Prop} {target : Target}
    {depth : ℕ} {queue : List Command} {replies items : List RespType} {client next : Client}
    (returns : (Task.executeQueue (Task.executeCommand (.asks target) depth) queue replies
      client).Returns possible (some (.ok (.array items), next))) :
    ∃ shown, items = replies ++ shown ∧ List.Forall₂
      (fun c item => c.Controls ∨ possible (.execute c) (.ok item)) queue shown := by
  induction queue generalizing replies client with
  | nil =>
      cases Prog.returns_ret_iff.mp returns
      exact ⟨[], (List.append_nil items).symm, .nil⟩
  | cons c rest ih =>
      rcases Prog.returns_bind_iff.mp returns with ⟨_ | ⟨reply | e | _, client'⟩, made, left⟩
      · cases Prog.returns_ret_iff.mp left
      · rcases ih left with ⟨shown, rfl, origins⟩
        refine ⟨reply :: shown, List.append_assoc .., .cons ?_ origins⟩
        exact or_iff_not_imp_left.mpr fun plain => Task.possible_of_executed plain made
      · cases Prog.returns_ret_iff.mp left
      · cases Prog.returns_ret_iff.mp left

/-- What EXEC shows are the replies to the commands in the queue, in their order. -/
theorem Task.returns_serve_exec {possible : (ask : Ask) → ask.Response → Prop} {target : Target}
    {resp : RespType} {client next : Client} {items : List RespType}
    (served : (Task.serve (.asks target) resp client).Returns possible (.ok (.array items), next))
    (asks : Asks target (· = .exec) resp) :
    List.Forall₂ (fun c item => c.Controls ∨ possible (.execute c) (.ok item))
      client.queuedCommands items := by
  rcases Prog.returns_bind_iff.mp served with ⟨now, -, made⟩
  cases extracted : Command.extractCommand target now resp with
  | ok cmd =>
      cases asks now cmd extracted
      rw [show Command.extractCommand (Service.asks target).target now resp = _ from extracted]
        at made
      rcases Prog.returns_bind_iff.mp made with ⟨_ | ⟨result, client'⟩, dispatched, last⟩
      · cases Prog.returns_ret_iff.mp last
      · cases Prog.returns_ret_iff.mp last
        have executed : (Task.executeQueue (Task.executeCommand (.asks target) 1)
            client.queuedCommands [] client).Returns possible
              (some (.ok (.array items), next)) := by
          unfold Task.dispatch at dispatched
          split at dispatched <;> exact dispatched
        rcases Task.returns_executeQueue executed with ⟨shown, rfl, origins⟩
        exact origins
  | error e =>
      rw [show Command.extractCommand (Service.asks target).target now resp = _ from extracted]
        at made
      cases Prog.returns_ret_iff.mp made
  | panic =>
      rw [show Command.extractCommand (Service.asks target).target now resp = _ from extracted]
        at made
      cases Prog.returns_ret_iff.mp made

end Asks

end Ember
