import Ember.Config.Requests

/-!
# The calls of a connection

What holds of all calls of the commands that a client asks for holds of all calls its
connection makes, whatever they are answered.  The commands it asks for are those in
its frames; the queue of a transaction adds no others.  Which command a frame asks for
depends on the clock, so that something may have to be known of its readings.
-/

namespace Ember

open Ember.Base Ember.Base.Framing Ember.Database Ember.Resp

/-- The frame asks for an allowed command, if for any. -/
def Asks (target : Target) (allowed : Command → Prop) (resp : RespType) : Prop :=
  ∀ now cmd, Command.extractCommand target now resp = .ok cmd → allowed cmd

/-- The frame asks for an allowed command, if for any, when the clock has been read. -/
def AsksAt (readable : Instant → Prop) (target : Target) (allowed : Command → Prop)
    (resp : RespType) : Prop :=
  ∀ now, readable now → ∀ cmd, Command.extractCommand target now resp = .ok cmd → allowed cmd

theorem Asks.asksAt {readable : Instant → Prop} {target : Target} {allowed : Command → Prop}
    {resp : RespType} (asks : Asks target allowed resp) : AsksAt readable target allowed resp :=
  fun now _ => asks now

variable {Op : Type} {Res : Op → Type}

/-- A property of all calls that allowed commands make, and of looking at the clock. -/
structure Covers (service : Service Op Res) (allowed : Command → Prop) (P : Op → Prop) :
    Prop where
  clock : service.now.Calls P
  operation : ∀ {c prog}, allowed c → service.operation c = some prog → prog.Calls P

/-- All commands in the queue are allowed. -/
def Client.Queues (allowed : Command → Prop) (client : Client) : Prop :=
  ∀ c ∈ client.queuedCommands, allowed c

theorem Client.queues_new (allowed : Command → Prop) : Client.new.Queues allowed :=
  fun _ member => absurd member List.not_mem_nil

namespace Task

variable {service : Service Op Res} {possible : (op : Op) → Res op → Prop}
  {readable : Instant → Prop} {allowed : Command → Prop} {P : Op → Prop}

theorem queue_executeQueue
    {execute : Client → Command → Prog Op Res (Option (Outcome String RespType × Client))}
    (each : ∀ {client c outcome client'},
      (execute client c).Returns possible (some (outcome, client')) →
        client'.queuedCommands ⊆ client.queuedCommands)
    {queue : List Command} {replies : List RespType} {client client' : Client}
    {outcome : Outcome String RespType}
    (returns : (executeQueue execute queue replies client).Returns possible
      (some (outcome, client'))) : client'.queuedCommands ⊆ client.queuedCommands := by
  induction queue generalizing replies client with
  | nil =>
      cases Prog.returns_ret_iff.mp returns
      exact List.nil_subset _
  | cons c rest ih =>
      rcases Prog.returns_bind_iff.mp returns with ⟨_ | ⟨reply | e | _, next⟩, made, left⟩
      · cases Prog.returns_ret_iff.mp left
      · exact List.Subset.trans (ih left) (each made)
      · cases Prog.returns_ret_iff.mp left
        exact each made
      · cases Prog.returns_ret_iff.mp left
        exact each made

/-- Executing a command adds nothing to the queue. -/
theorem queue_executeCommand {depth : ℕ} {client client' : Client} {cmd : Command}
    {outcome : Outcome String RespType}
    (returns : (executeCommand service depth client cmd).Returns possible
      (some (outcome, client'))) : client'.queuedCommands ⊆ client.queuedCommands := by
  induction depth generalizing client cmd outcome client' with
  | zero => cases Prog.returns_ret_iff.mp returns
  | succ depth ih =>
      by_cases controls : cmd.Controls
      · cases cmd with
        | multi | discard =>
            cases Prog.returns_ret_iff.mp returns
            exact List.nil_subset _
        | exec => exact queue_executeQueue ih returns
        | _ => exact controls.elim
      · rw [executeCommand_plain controls] at returns
        cases found : service.operation cmd with
        | none =>
            rw [found] at returns
            cases Prog.returns_ret_iff.mp returns
        | some prog =>
            rw [found] at returns
            rcases Prog.returns_bind_iff.mp returns with ⟨result, made, last⟩
            cases Prog.returns_ret_iff.mp last
            exact List.Subset.refl _

theorem calls_executeQueue
    {execute : Client → Command → Prog Op Res (Option (Outcome String RespType × Client))}
    (each : ∀ {client c}, client.Queues allowed → allowed c →
      (execute client c).CallsGiven possible P)
    (kept : ∀ {client c outcome client'},
      (execute client c).Returns possible (some (outcome, client')) →
        client'.queuedCommands ⊆ client.queuedCommands)
    {queue : List Command} (listed : ∀ c ∈ queue, allowed c) {replies : List RespType}
    {client : Client} (queued : client.Queues allowed) :
    (executeQueue execute queue replies client).CallsGiven possible P := by
  induction queue generalizing replies client with
  | nil => trivial
  | cons c rest ih =>
      rcases List.forall_mem_cons.mp listed with ⟨first, others⟩
      apply (each queued first).bind
      rintro (_ | ⟨reply | e | _, next⟩) made
      · trivial
      · exact ih others fun c member => queued c (kept made member)
      · trivial
      · trivial

theorem calls_executeCommand (covers : Covers service allowed P) {depth : ℕ} {client : Client}
    (queued : client.Queues allowed) {cmd : Command} (asked : allowed cmd) :
    (executeCommand service depth client cmd).CallsGiven possible P := by
  induction depth generalizing client cmd with
  | zero => trivial
  | succ depth ih =>
      by_cases controls : cmd.Controls
      · cases cmd with
        | multi | discard => trivial
        | exec =>
            exact calls_executeQueue (fun queued asked => ih queued asked) queue_executeCommand
              queued queued
        | _ => exact controls.elim
      · rw [executeCommand_plain controls]
        cases found : service.operation cmd with
        | none => trivial
        | some prog =>
            exact (covers.operation asked found).given.bind fun _ _ => trivial

theorem queue_dispatch {depth : ℕ} {client client' : Client} {cmd : Command}
    {outcome : Outcome String RespType}
    (returns : (dispatch service depth client cmd).Returns possible (some (outcome, client'))) :
    client'.queuedCommands ⊆ client.queuedCommands ++ [cmd] := by
  have added : client.queuedCommands ⊆ client.queuedCommands ++ [cmd] :=
    List.subset_append_left _ _
  unfold dispatch at returns
  split at returns
  · split at returns
    · cases Prog.returns_ret_iff.mp returns
      exact added
    · exact List.Subset.trans (queue_executeCommand returns) added
    · exact List.Subset.trans (queue_executeCommand returns) added
    · cases Prog.returns_ret_iff.mp returns
      exact List.Subset.refl _
  · exact List.Subset.trans (queue_executeCommand returns) added

theorem calls_dispatch (covers : Covers service allowed P) {depth : ℕ} {client : Client}
    (queued : client.Queues allowed) {cmd : Command} (asked : allowed cmd) :
    (dispatch service depth client cmd).CallsGiven possible P := by
  unfold dispatch
  split
  · split
    · trivial
    · exact calls_executeCommand covers queued asked
    · exact calls_executeCommand covers queued asked
    · trivial
  · exact calls_executeCommand covers queued asked

section Serve

variable (reads : ∀ now, service.now.Returns possible now → readable now) {resp : RespType}
  (frame : AsksAt readable service.target allowed resp) {client client' : Client}
  (queued : client.Queues allowed)

include reads frame queued

theorem calls_serve (covers : Covers service allowed P) :
    (serve service resp client).CallsGiven possible P := by
  apply covers.clock.given.bind
  intro now read
  cases extracted : Command.extractCommand service.target now resp with
  | ok cmd =>
      have asked := frame now (reads now read) cmd extracted
      exact (calls_dispatch covers queued asked).bind fun _ _ => trivial
  | error e => trivial
  | panic => trivial

/-- A frame adds to the queue what it asks for, if anything. -/
theorem queue_serve {outcome : Outcome String RespType}
    (returns : (serve service resp client).Returns possible (outcome, client')) :
    client'.Queues allowed := by
  rcases Prog.returns_bind_iff.mp returns with ⟨now, read, served⟩
  cases extracted : Command.extractCommand service.target now resp with
  | ok cmd =>
      rw [extracted] at served
      rcases Prog.returns_bind_iff.mp served with ⟨_ | ⟨result, next⟩, made, last⟩
      · cases Prog.returns_ret_iff.mp last
        exact queued
      · cases Prog.returns_ret_iff.mp last
        intro c member
        rcases List.mem_append.mp (queue_dispatch made member) with old | new
        · exact queued c old
        · rw [List.mem_singleton.mp new]
          exact frame now (reads now read) cmd extracted
  | error e =>
      rw [extracted] at served
      cases Prog.returns_ret_iff.mp served
      exact queued
  | panic =>
      rw [extracted] at served
      cases Prog.returns_ret_iff.mp served
      exact queued

end Serve

section Loops

variable (reads : ∀ now, service.now.Returns possible now → readable now)

include reads

theorem queue_answered {requests : List Incoming} {client last : Client} {replies : List RespType}
    (answered : Answered service possible requests client replies last)
    (frames : ∀ resp, .frame resp ∈ requests → AsksAt readable service.target allowed resp)
    (queued : client.Queues allowed) : last.Queues allowed := by
  induction answered with
  | nil client => exact queued
  | frame served given later ih =>
      apply ih fun resp member => frames resp (List.mem_cons_of_mem _ member)
      exact queue_serve reads (frames _ List.mem_cons_self) queued served
  | malformed later ih =>
      exact ih (fun resp member => frames resp (List.mem_cons_of_mem _ member)) queued

/-- The reply to a request was given after the requests before, while all commands in the
queue were allowed. -/
theorem served_at_of_answered {requests : List Incoming} {first last : Client}
    {replies : List RespType} (answered : Answered service possible requests first replies last)
    (frames : ∀ resp, .frame resp ∈ requests → AsksAt readable service.target allowed resp)
    (queued : first.Queues allowed) {n : ℕ} {resp reply : RespType}
    (asked : requests[n]? = some (.frame resp)) (replied : replies[n]? = some reply) :
    ∃ client outcome next, client.Queues allowed ∧
      Answered service possible (requests.take n) first (replies.take n) client ∧
      (serve service resp client).Returns possible (outcome, next) ∧
        answer outcome = some reply := by
  induction answered generalizing n with
  | nil client => cases asked
  | frame served given later ih =>
      cases n with
      | zero =>
          cases asked
          cases replied
          exact ⟨_, _, _, queued, .nil _, served, given⟩
      | succ n =>
          have queued' := queue_serve reads (frames _ List.mem_cons_self) queued served
          rcases ih (fun resp member => frames resp (List.mem_cons_of_mem _ member)) queued' asked
            replied with ⟨client, outcome, next, within, before, now⟩
          exact ⟨client, outcome, next, within, .frame served given before, now⟩
  | malformed later ih =>
      cases n with
      | zero => cases asked
      | succ n =>
          rcases ih (fun resp member => frames resp (List.mem_cons_of_mem _ member)) queued asked
            replied with ⟨client, outcome, next, within, before, now⟩
          exact ⟨client, outcome, next, within, .malformed before, now⟩

theorem calls_drain (covers : Covers service allowed P) {fuel pipelineCount : ℕ}
    {madeProgress : Bool} {conn : Connection Client}
    (frames : ∀ resp, .frame resp ∈ (requestsIn service.target conn.buf).1 →
      AsksAt readable service.target allowed resp)
    (queued : conn.state.Queues allowed) :
    (drain service fuel pipelineCount madeProgress conn).CallsGiven possible P := by
  induction fuel generalizing pipelineCount madeProgress conn with
  | zero => trivial
  | succ fuel ih =>
      rw [drain_succ]
      split
      · trivial
      · cases verdict : Parser.parse service.target conn.buf with
        | ok accepted =>
            rcases accepted with ⟨resp, consumed⟩
            rw [requestsIn_of_ok verdict] at frames
            have later : ∀ resp,
                .frame resp ∈ (requestsIn service.target (conn.buf.drop consumed)).1 →
                  AsksAt readable service.target allowed resp :=
              fun resp member => frames resp (List.mem_cons_of_mem _ member)
            have here := frames resp List.mem_cons_self
            apply (calls_serve reads here queued covers).bind
            rintro ⟨reply | e | _, client⟩ made
            · have next := queue_serve reads here queued made
              dsimp only
              split
              · exact ih later next
              · exact ih later next
            · exact ih later (queue_serve reads here queued made)
            · trivial
        | error reason => cases reason <;> trivial
        | panic => trivial

theorem calls_handle (covers : Covers service allowed P) {events : List ReadEvent}
    {conn : Connection Client}
    (frames : ∀ resp, .frame resp ∈ requests service.target events conn.buf →
      AsksAt readable service.target allowed resp)
    (queued : conn.state.Queues allowed) :
    (handle service events conn).CallsGiven possible P := by
  induction events generalizing conn with
  | nil => trivial
  | cons event events ih =>
      rw [handle_cons]
      split
      next waits =>
        apply ih _ queued
        rw [waits.1, waits.2, requests_of_wouldBlock] at frames
        rwa [waits.1]
      next =>
        cases got : conn.receive event with
        | none => trivial
        | some received =>
            rw [requests_cons service.target got] at frames
            have first : ∀ resp, .frame resp ∈ (requestsIn service.target received.buf).1 →
                AsksAt readable service.target allowed resp :=
              fun resp member => frames resp (List.mem_append_left _ member)
            have receivedQueue : received.state.Queues allowed := by
              rwa [(kept_of_receive got).1]
            have buffered : (serveBuffered service received).CallsGiven possible P := by
              rw [serveBuffered_eq]
              apply (calls_drain reads covers first receivedQueue).bind
              rintro (_ | _) - <;> trivial
            apply buffered.bind
            rintro (⟨madeProgress, conn'⟩ | _) made
            · obtain ⟨answered, rest, replies, client, settled⟩ := settled_serveBuffered made
              rcases settled.done rfl with ⟨rfl, rfl, left⟩
              rw [left] at frames
              apply ih fun resp member => frames resp (List.mem_append_right _ member)
              apply queue_answered reads settled.answers _ receivedQueue
              intro resp member
              exact first resp (settled.requests ▸ List.mem_append_left _ member)
            · trivial

end Loops

/-- The reply to a frame that can only ask for one plain command: an error, the notice
that it was queued, or what the command returns. -/
theorem returns_serve_plain {c : Command} (plain : ¬c.Controls) {resp : RespType}
    {client next : Client} {outcome : Outcome String RespType}
    (served : (serve service resp client).Returns possible (outcome, next))
    (asks : Asks service.target (· = c) resp) :
    (∃ e, outcome = .error e) ∨ outcome = .panic ∨ outcome = .ok (.simpleString "QUEUED") ∨
      ∃ prog, service.operation c = some prog ∧ prog.Returns possible outcome := by
  rcases Prog.returns_bind_iff.mp served with ⟨now, -, made⟩
  cases extracted : Command.extractCommand service.target now resp with
  | ok cmd =>
      cases asks now cmd extracted
      rw [extracted] at made
      rcases Prog.returns_bind_iff.mp made with ⟨_ | ⟨result, client'⟩, dispatched, last⟩
      · cases Prog.returns_ret_iff.mp last
        exact Or.inr (Or.inl rfl)
      · cases Prog.returns_ret_iff.mp last
        refine Or.inr (Or.inr ?_)
        rw [dispatch_plain plain] at dispatched
        split at dispatched
        · cases Prog.returns_ret_iff.mp dispatched
          exact Or.inl rfl
        · rw [executeCommand_plain plain] at dispatched
          cases found : service.operation c with
          | none =>
              rw [found] at dispatched
              cases Prog.returns_ret_iff.mp dispatched
          | some prog =>
              rw [found] at dispatched
              rcases Prog.returns_bind_iff.mp dispatched with ⟨value, ran, same⟩
              cases Prog.returns_ret_iff.mp same
              exact Or.inr ⟨prog, rfl, ran⟩
  | error e =>
      rw [extracted] at made
      cases Prog.returns_ret_iff.mp made
      exact Or.inl ⟨e, rfl⟩
  | panic =>
      rw [extracted] at made
      cases Prog.returns_ret_iff.mp made
      exact Or.inr (Or.inl rfl)

/-- All calls of a connection have the property. -/
theorem calls_connection (covers : Covers service allowed P) {spill : Spill UInt8}
    {events : List ReadEvent}
    (frames : ∀ resp, .frame resp ∈ requests service.target events [] →
      Asks service.target allowed resp) :
    (connection spill service events).Calls P := by
  have readable : ∀ now, service.now.Returns (fun _ _ => True) now → True := fun _ _ => trivial
  apply Prog.CallsGiven.always
  exact calls_handle readable covers (fun resp member => (frames resp member).asksAt)
    (Client.queues_new allowed)

end Task

end Ember
