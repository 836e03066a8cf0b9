import Ember.Command.Transaction

/-!
# Transactions and direct execution

Whatever a client sends, its queue holds plain commands only, so that EXEC nests one
call and no more.  A transaction whose commands all succeed therefore does what the
commands do when they are sent directly, at the same clock readings, and one that is
discarded does nothing.
-/

namespace Ember

open Ember.Base Ember.Database Ember.Resp

namespace Dispatcher

variable {target : Target} {clock : ℕ → Instant}

/-! ## The depth of the nesting -/

theorem executeQueue_mono {execute execute' : Session → Command →
      Option (Outcome String RespType × Session)}
    (agrees : ∀ session cmd result, execute session cmd = some result →
      execute' session cmd = some result)
    {queue : List Command} {replies : List RespType} {session : Session}
    {result : Outcome String RespType × Session}
    (ran : executeQueue execute queue replies session = some result) :
    executeQueue execute' queue replies session = some result := by
  induction queue generalizing replies session with
  | nil => exact ran
  | cons c rest ih =>
      rw [executeQueue] at ran ⊢
      cases first : execute session c with
      | none =>
          rw [first] at ran
          cases ran
      | some outcome =>
          rw [agrees session c outcome first]
          rw [first] at ran
          rcases outcome with ⟨reply | reason | _, session'⟩
          · exact ih ran
          · exact ran
          · exact ran

/-- What was executed within some depth is executed in the same way within a greater
one. -/
theorem executeCommand_mono {depth depth' : ℕ} (deeper : depth ≤ depth') {session : Session}
    {cmd : Command} {result : Outcome String RespType × Session}
    (ran : executeCommand target clock depth session cmd = some result) :
    executeCommand target clock depth' session cmd = some result := by
  induction depth generalizing depth' session cmd result with
  | zero => cases ran
  | succ depth ih =>
      cases depth' with
      | zero => cases deeper
      | succ depth' =>
          cases cmd with
          | exec =>
              exact executeQueue_mono
                (fun _ _ _ nested => ih (Nat.le_of_succ_le_succ deeper) nested) ran
          | _ => exact ran

theorem dispatch_of_outside {session : Session} (outside : session.client.inTransaction = false)
    (depth : ℕ) (cmd : Command) :
    dispatch target clock depth session cmd = executeCommand target clock depth session cmd := by
  simp [dispatch, outside]

theorem dispatch_mono {depth depth' : ℕ} (deeper : depth ≤ depth') {session : Session}
    {cmd : Command} {result : Outcome String RespType × Session}
    (ran : dispatch target clock depth session cmd = some result) :
    dispatch target clock depth' session cmd = some result := by
  unfold dispatch at ran ⊢
  split at ran
  next inside =>
    rw [if_pos inside]
    cases cmd with
    | exec | discard => exact executeCommand_mono deeper ran
    | _ => exact ran
  next outside =>
    rw [if_neg outside]
    exact executeCommand_mono deeper ran

end Dispatcher

/-- The transaction states of a client that has sent any commands, whatever they met and
however they ended. -/
inductive Client.Reachable (target : Target) : Client → Prop
  | new : Reachable target Client.new
  | dispatch {session session' : Session} {clock : ℕ → Instant} {depth : ℕ} {cmd : Command}
      {outcome : Outcome String RespType} (reachable : Reachable target session.client)
      (ran : Dispatcher.dispatch target clock depth session cmd = some (outcome, session')) :
      Reachable target session'.client

namespace Client.Reachable

variable {target : Target} {client : Client}

theorem wellFormed (reachable : Reachable target client) : client.WellFormed := by
  induction reachable with
  | new => exact Client.wellFormed_of_queue_nil false
  | @dispatch session session' clock depth cmd outcome reachable ran ih =>
      obtain ⟨outcome', session'', ran', transition⟩ :=
        Dispatcher.dispatch_transition target clock depth session ih cmd
      cases (Dispatcher.dispatch_mono (Nat.le_add_right depth 2) ran).symm.trans ran'
      exact transition.wellFormed ih

/-- The queue is empty outside a transaction and never holds a command that controls it.
So the recursion of a command through EXEC ends, after two nested calls at most. -/
theorem nesting_le_two (reachable : Reachable target client) :
    (client.inTransaction = false → client.queuedCommands = []) ∧
    (∀ c ∈ client.queuedCommands, c ≠ .multi ∧ c ≠ .exec ∧ c ≠ .discard) ∧
    ∀ (clock : ℕ → Instant) (db : DB) (tick : ℕ) (cmd : Command), ∃ result, ∀ depth, 2 ≤ depth →
      Dispatcher.executeCommand target clock depth ⟨client, db, tick⟩ cmd = some result := by
  have wf := reachable.wellFormed
  refine ⟨wf.idle, ?_, ?_⟩
  · intro c member
    have plain := wf.plain c member
    refine ⟨?_, ?_, ?_⟩ <;>
    · rintro rfl
      exact plain trivial
  · intro clock db tick cmd
    obtain ⟨result, ran⟩ : ∃ result,
        Dispatcher.executeCommand target clock 2 ⟨client, db, tick⟩ cmd = some result := by
      cases cmd with
      | exec =>
          rcases Dispatcher.executeCommand_exec target clock 0 ⟨client, db, tick⟩ wf with
            ⟨outcome, session, ran, -⟩
          exact ⟨_, ran⟩
      | _ => exact ⟨_, rfl⟩
    exact ⟨result, fun depth two => Dispatcher.executeCommand_mono two ran⟩

/-- A client that has sent MULTI and PING. -/
theorem nesting_le_two_queued :
    Reachable ⟨true, 32⟩ ⟨true, [.ping]⟩ ∧ ∃ result, ∀ depth, 2 ≤ depth →
      Dispatcher.executeCommand ⟨true, 32⟩ (fun _ => 0) depth ⟨⟨true, [.ping]⟩, ⟨∅, ∅⟩, 0⟩ .exec =
        some result := by
  have opened : Reachable ⟨true, 32⟩ ⟨true, []⟩ :=
    @dispatch _ ⟨Client.new, ⟨∅, ∅⟩, 0⟩ ⟨⟨true, []⟩, ⟨∅, ∅⟩, 0⟩ (fun _ => 0) 2 .multi _ .new rfl
  have queued : Reachable ⟨true, 32⟩ ⟨true, [.ping]⟩ :=
    @dispatch _ ⟨⟨true, []⟩, ⟨∅, ∅⟩, 0⟩ ⟨⟨true, [.ping]⟩, ⟨∅, ∅⟩, 0⟩ (fun _ => 0) 2 .ping _
      opened rfl
  exact ⟨queued, queued.nesting_le_two.2.2 (fun _ => 0) ⟨∅, ∅⟩ 0 .exec⟩

end Client.Reachable

/-! ## Transactions -/

namespace Dispatcher

/-- Dispatch commands one after the other, with all their outcomes. -/
def dispatchAll (target : Target) (clock : ℕ → Instant) (depth : ℕ) :
    Session → List Command → Option (List (Outcome String RespType) × Session)
  | session, [] => some ([], session)
  | session, cmd :: rest =>
      (dispatch target clock depth session cmd).bind fun first =>
        (dispatchAll target clock depth first.2 rest).map fun others =>
          (first.1 :: others.1, others.2)

variable {target : Target} {clock : ℕ → Instant} {depth : ℕ}

theorem dispatchAll_cons_eq_some_iff {session final : Session} {cmd : Command}
    {rest : List Command} {outcomes : List (Outcome String RespType)} :
    dispatchAll target clock depth session (cmd :: rest) = some (outcomes, final) ↔
      ∃ outcome session' others,
        dispatch target clock depth session cmd = some (outcome, session') ∧
          dispatchAll target clock depth session' rest = some (others, final) ∧
            outcomes = outcome :: others := by
  simp only [dispatchAll, Option.bind_eq_some_iff, Option.map_eq_some_iff]
  constructor
  · rintro ⟨⟨outcome, session'⟩, first, ⟨others, _⟩, later, ⟨⟩⟩
    exact ⟨outcome, session', others, first, later, rfl⟩
  · rintro ⟨outcome, session', others, first, later, rfl⟩
    exact ⟨(outcome, session'), first, (others, final), later, rfl⟩

theorem dispatchAll_append {session middle final : Session} {first second : List Command}
    {early late : List (Outcome String RespType)}
    (before : dispatchAll target clock depth session first = some (early, middle))
    (after : dispatchAll target clock depth middle second = some (late, final)) :
    dispatchAll target clock depth session (first ++ second) = some (early ++ late, final) := by
  induction first generalizing session early with
  | nil =>
      cases before
      exact after
  | cons cmd rest ih =>
      rcases dispatchAll_cons_eq_some_iff.mp before with
        ⟨outcome, session', others, ran, later, rfl⟩
      exact dispatchAll_cons_eq_some_iff.mpr ⟨outcome, session', _, ran, ih later, rfl⟩

/-- Inside a transaction plain commands are added to the queue. -/
theorem dispatchAll_queued {commands : List Command} (plain : ∀ c ∈ commands, ¬c.Controls)
    (queue : List Command) (db : DB) (tick : ℕ) :
    dispatchAll target clock depth ⟨⟨true, queue⟩, db, tick⟩ commands =
      some (commands.map fun _ => .ok (.simpleString "QUEUED"),
        ⟨⟨true, queue ++ commands⟩, db, tick⟩) := by
  induction commands generalizing queue with
  | nil => rw [List.append_nil]; rfl
  | cons c rest ih =>
      rcases List.forall_mem_cons.mp plain with ⟨plainHead, plainRest⟩
      have queued : dispatch target clock depth ⟨⟨true, queue⟩, db, tick⟩ c =
          some (.ok (.simpleString "QUEUED"), ⟨⟨true, queue ++ [c]⟩, db, tick⟩) := by
        cases c with
        | multi | discard | exec => exact absurd trivial plainHead
        | _ => rfl
      have later := ih plainRest (queue ++ [c])
      rw [List.append_assoc, List.singleton_append] at later
      exact dispatchAll_cons_eq_some_iff.mpr ⟨_, _, _, queued, later, rfl⟩

/-- EXEC runs a queue as if its commands were sent directly, as long as they succeed. -/
theorem executeQueue_of_dispatchAll {commands : List Command}
    (plain : ∀ c ∈ commands, ¬c.Controls) {session final : Session}
    (outside : session.client.inTransaction = false) {replies : List RespType}
    (ran : dispatchAll target clock (depth + 1) session commands = some (replies.map .ok, final))
    (nested : ℕ) (client : Client) (earlier : List RespType) :
    executeQueue (executeCommand target clock (nested + 1)) commands earlier
        { session with client := client } =
      some (.ok (.array (earlier ++ replies)), { final with client := ⟨false, []⟩ }) := by
  induction commands generalizing session replies earlier with
  | nil =>
      rcases replies with _ | ⟨reply, replies⟩
      · cases ran
        rw [List.append_nil]
        rfl
      · cases ran
  | cons c rest ih =>
      rcases List.forall_mem_cons.mp plain with ⟨plainHead, plainRest⟩
      rcases dispatchAll_cons_eq_some_iff.mp ran with
        ⟨outcome, session', others, first, later, equal⟩
      rcases replies with _ | ⟨reply, replies⟩
      · cases equal
      · cases equal
        rw [dispatch_of_outside outside, executeCommand_plain target clock plainHead] at first
        have replied : (effect target (clock session.tick) session.db c).1 = .ok reply :=
          congrArg Prod.fst (Option.some.inj first)
        have advanced : advance target clock session c = session' :=
          congrArg Prod.snd (Option.some.inj first)
        have queued := executeCommand_plain target clock plainHead nested
          { session with client := client }
        rw [replied] at queued
        subst advanced
        have still : (advance target clock session c).client.inTransaction = false := outside
        have rest := ih plainRest still later (earlier ++ [reply])
        rw [List.append_assoc, List.singleton_append] at rest
        rw [executeQueue, queued]
        exact rest

/-- A transaction and direct execution.  For a client outside a transaction, MULTI, plain
commands and EXEC leave the maps as the commands themselves do, if all of these succeed,
and EXEC replies with the array of their replies.  With DISCARD in the place of EXEC the
maps are left alone.  In both cases the client is what it was. -/
theorem transaction_eq_direct {client : Client} (reachable : client.Reachable target)
    (outside : client.inTransaction = false) {commands : List Command}
    (plain : ∀ c ∈ commands, c ≠ .multi ∧ c ≠ .exec ∧ c ≠ .discard) (clock : ℕ → Instant)
    (db : DB) (tick : ℕ) :
    (∀ replies direct,
      dispatchAll target clock 2 ⟨client, db, tick⟩ commands = some (replies.map .ok, direct) →
      ∃ session, dispatchAll target clock 2 ⟨client, db, tick⟩ (.multi :: commands ++ [.exec]) =
          some (.ok (.simpleString "Ok") :: commands.map (fun _ => .ok (.simpleString "QUEUED")) ++
            [.ok (.array replies)], session) ∧
        session.db = direct.db ∧ session.client = client) ∧
    ∃ outcomes session,
      dispatchAll target clock 2 ⟨client, db, tick⟩ (.multi :: commands ++ [.discard]) =
          some (outcomes, session) ∧ session.db = db ∧ session.client = client := by
  have plain' : ∀ c ∈ commands, ¬c.Controls := by
    intro c member controls
    have others := plain c member
    cases c <;> simp_all [Command.Controls]
  obtain rfl : client = ⟨false, []⟩ := by
    rcases client with ⟨inTransaction, queue⟩
    obtain rfl : inTransaction = false := outside
    obtain rfl : queue = [] := reachable.wellFormed.idle rfl
    rfl
  have opened : dispatchAll target clock 2 ⟨⟨false, []⟩, db, tick⟩ (.multi :: commands) =
      some (.ok (.simpleString "Ok") :: commands.map (fun _ => .ok (.simpleString "QUEUED")),
        ⟨⟨true, commands⟩, db, tick⟩) :=
    dispatchAll_cons_eq_some_iff.mpr ⟨_, _, _, rfl, dispatchAll_queued plain' [] db tick, rfl⟩
  constructor
  · intro replies direct ran
    have committed : dispatch target clock 2 ⟨⟨true, commands⟩, db, tick⟩ .exec =
        some (.ok (.array replies), { direct with client := ⟨false, []⟩ }) :=
      executeQueue_of_dispatchAll plain' rfl ran 0 ⟨true, commands⟩ []
    exact ⟨_, dispatchAll_append opened
      (dispatchAll_cons_eq_some_iff.mpr ⟨_, _, [], committed, rfl, rfl⟩), rfl, rfl⟩
  · exact ⟨_, _, dispatchAll_append opened rfl, rfl, rfl⟩

/-- Two commands on one key, by a new client. -/
theorem transaction_eq_direct_push :
    let commands := [.rpush "l" ["a", "b"], .lrange "l" 0 1]
    let replies := [.simpleString "Ok", .array [.bulkString "a", .bulkString "b"]]
    (∃ direct, dispatchAll ⟨true, 32⟩ (fun _ => 0) 2 ⟨Client.new, ⟨∅, ∅⟩, 0⟩ commands =
      some (replies.map .ok, direct)) ∧
    ∃ outcomes session, dispatchAll ⟨true, 32⟩ (fun _ => 0) 2 ⟨Client.new, ⟨∅, ∅⟩, 0⟩
        (.multi :: commands ++ [.exec]) = some (outcomes ++ [.ok (.array replies)], session) ∧
      session.client = Client.new := by
  have ran : ∃ direct, dispatchAll ⟨true, 32⟩ (fun _ => 0) 2 ⟨Client.new, ⟨∅, ∅⟩, 0⟩
      [.rpush "l" ["a", "b"], .lrange "l" 0 1] =
        some ([.simpleString "Ok", .array [.bulkString "a", .bulkString "b"]].map .ok, direct) :=
    ⟨_, rfl⟩
  refine ⟨ran, ?_⟩
  rcases ran with ⟨direct, ran⟩
  obtain ⟨session, committed, -, same⟩ := (transaction_eq_direct .new rfl (by decide) (fun _ => 0)
    ⟨∅, ∅⟩ 0).1 _ direct ran
  exact ⟨_, session, committed, same⟩

end Dispatcher

end Ember
