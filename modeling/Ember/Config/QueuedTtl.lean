import Ember.Config.TimeToLive

/-!
# Times to live in transactions

The deadline of a queued request is computed when the request is parsed, and EXEC
stores it as it is.  So the time to live counts from the moment of queueing, and a
transaction that waits longer than that commits a key that is already dead.
-/

namespace Ember

open Ember.Base Ember.Database Ember.Resp Dispatcher

/-- The command writes to the key, if it succeeds. -/
def Command.WritesTo (key : String) : Command → Prop
  | .set key' _ _ | .delete key' | .lpush key' _ | .rpush key' _ | .expire key' _ _ => key = key'
  | _ => False

section

variable {target : Target} {clock : ℕ → Instant} {key : String}

/-- Other commands leave the deadline of a key alone, unless they find that it has
passed. -/
theorem lookup_expirations_effect {c : Command} (plain : ¬c.Controls) (other : ¬c.WritesTo key)
    (now : Instant) (db : DB) :
    let db' := (effect target now db c).2
    db'.expirations.lookup key = db.expirations.lookup key ∨
      db.expired now key = true ∧ db'.expirations.lookup key = none := by
  have change := effect_change target now db plain
  generalize (effect target now db c).2 = db' at change
  cases change with
  | none | pushed => exact Or.inl rfl
  | settled key' =>
      rcases DB.Reaped.settle now db key' key with ⟨-, same⟩ | ⟨passed, -, gone⟩
      · exact Or.inl same
      · exact Or.inr ⟨passed, gone⟩
  | bound key' text expiresAt =>
      left
      rw [DB.lookup_bindKey_expirations]
      exact if_neg other
  | evicted key' =>
      left
      rw [DB.lookup_evict_expirations]
      exact if_neg other
  | @scheduled key' expiresAt option present =>
      exact Or.inl (Finmap.lookup_insert_of_ne db.expirations other)

/-- What the commands behind the last write to a key do to its deadline. -/
theorem lookup_expirations_advanceAll {now : Instant} {commands : List Command}
    (plain : ∀ c ∈ commands, ¬c.Controls) (others : ∀ c ∈ commands, ¬c.WritesTo key)
    (session : Session) :
    let final := advanceAll target (fun _ => now) session commands
    final.db.expirations.lookup key = session.db.expirations.lookup key ∨
      session.db.expired now key = true ∧ final.db.expirations.lookup key = none := by
  induction commands generalizing session with
  | nil => exact Or.inl rfl
  | cons c rest ih =>
      rcases List.forall_mem_cons.mp plain with ⟨plainHead, plainRest⟩
      rcases List.forall_mem_cons.mp others with ⟨otherHead, otherRest⟩
      have first := @lookup_expirations_effect target key c plainHead otherHead now session.db
      have later := ih plainRest otherRest (advance target (fun _ => now) session c)
      have maps : (advance target (fun _ => now) session c).db =
          (effect target now session.db c).2 := rfl
      rw [DB.expired, maps] at later
      rcases first with same | ⟨passed, gone⟩
      · rwa [same] at later
      · rw [gone] at later
        exact Or.inr ⟨passed, later.elim id And.right⟩

/-- The maps that are left by the front of an accepted queue accept its rest. -/
theorem queueAccepted_append {front rest : List Command} {session : Session}
    (accepted : QueueAccepted target clock session.tick session.db (front ++ rest)) :
    let middle := advanceAll target clock session front
    QueueAccepted target clock middle.tick middle.db rest := by
  induction front generalizing session with
  | nil => exact accepted
  | cons c front ih => exact @ih (advance target clock session c) accepted.2

/-- A queue whose execution succeeds was accepted and executed to its end. -/
theorem executeQueue_ok {queue : List Command} (plain : ∀ c ∈ queue, ¬c.Controls) {depth : ℕ}
    {replies : List RespType} {session session' : Session} {reply : RespType}
    (executed : executeQueue (executeCommand target clock (depth + 1)) queue replies session =
      some (.ok reply, session')) :
    QueueAccepted target clock session.tick session.db queue ∧
      session'.db = (advanceAll target clock session queue).db := by
  induction queue generalizing replies session with
  | nil =>
      cases executed
      exact ⟨trivial, rfl⟩
  | cons c rest ih =>
      rcases List.forall_mem_cons.mp plain with ⟨plainHead, plainRest⟩
      rw [executeQueue, executeCommand_plain target clock plainHead depth session] at executed
      cases replied : (effect target (clock session.tick) session.db c).1 with
      | ok first =>
          rw [replied] at executed
          have accepted := (effect_eq_ok_iff target plainHead _ _).mp ⟨first, replied⟩
          rcases ih plainRest executed with ⟨later, final⟩
          exact ⟨⟨accepted, later⟩, final⟩
      | error reason =>
          rw [replied] at executed
          cases executed
      | panic =>
          rw [replied] at executed
          cases executed

/-- A successful EXEC has executed its queue. -/
theorem exec_ok {session session' : Session} {reply : RespType}
    (plain : ∀ c ∈ session.client.queuedCommands, ¬c.Controls)
    (executed : dispatch target clock 2 session .exec = some (.ok reply, session')) :
    QueueAccepted target clock session.tick session.db session.client.queuedCommands ∧
      session'.db = (advanceAll target clock session session.client.queuedCommands).db := by
  apply executeQueue_ok plain
  rw [dispatch, ite_self] at executed
  exact executed

end

/-- The deadline of a queued request is what EXEC leaves, unless EXEC comes so late
that a command behind it finds the key expired. -/
theorem queued_deadline_iff {target : Target} {parsedAt now : Instant} {ttl : ℕ}
    {session session' : Session}
    (plain : ∀ c ∈ session.client.queuedCommands, ¬c.Controls) {request : TtlRequest}
    {key : String} {before after : List Command}
    (queue : session.client.queuedCommands =
      before ++ request.command key (parsedAt + ttl) :: after)
    (last : ∀ c ∈ after, ¬c.WritesTo key) {reply : RespType}
    (executed : dispatch target (fun _ => now) 2 session .exec = some (.ok reply, session')) :
    session'.db.expirations.lookup key = some (now + ttl) ↔ parsedAt = now := by
  rcases exec_ok plain executed with ⟨accepted, final⟩
  rw [queue] at plain accepted final
  have behind : ∀ c ∈ after, ¬c.Controls := fun c member =>
    plain c (List.mem_append_right _ (List.mem_cons_of_mem _ member))
  let middle := advanceAll target (fun _ => now) session before
  have here : Accepted target now middle.db (request.command key (parsedAt + ttl)) :=
    (queueAccepted_append accepted).1
  have scheduled := (lookup_effect_command request _ here).2.2
  have split : advanceAll target (fun _ => now) session
      (before ++ request.command key (parsedAt + ttl) :: after) =
        advanceAll target (fun _ => now)
          (advance target (fun _ => now) middle (request.command key (parsedAt + ttl))) after :=
    List.foldl_append
  rw [final, split]
  rcases lookup_expirations_advanceAll behind last (advance target (fun _ => now) middle
      (request.command key (parsedAt + ttl))) with same | ⟨passed, gone⟩
  · rw [same, advance, scheduled, Option.some.injEq, Nat.add_right_cancel_iff]
  · rw [gone]
    apply iff_of_false
    · nofun
    · rintro rfl
      rcases DB.expired_eq_true_iff.mp passed with ⟨deadline, found, before⟩
      cases found.symm.trans scheduled
      exact absurd before (Nat.not_lt_of_le (Nat.le_add_right _ _))

/-- The deadline of the last write to a key in a transaction.  After an EXEC at time
`now` it is the time to live after `now` exactly when the request was also parsed at
that time.  The same request sent directly has a deadline that counts from its own
time. -/
theorem queued_ttl_iff (target : Target) {parsedAt now : Instant} {session session' : Session}
    (wf : session.client.WellFormed) {request : TtlRequest} (spelled : request.Spelled)
    {key numeral : String} {n : ℤ} (number : Signed 31 (utf8Bytes numeral) n)
    (exact : request.Exact n) {cmd : Command}
    (parsed : Command.extractCommand target parsedAt (request.frame key numeral) = .ok cmd)
    {before after : List Command}
    (queue : session.client.queuedCommands = before ++ cmd :: after)
    (last : ∀ c ∈ after, ¬c.WritesTo key) {reply : RespType}
    (executed : dispatch target (fun _ => now) 2 session .exec = some (.ok reply, session')) :
    (session'.db.expirations.lookup key = some (now + request.nanoseconds n) ↔
        parsedAt = now) ∧
      ∀ (direct direct' : Session) (reply' : RespType), direct.client.inTransaction = false →
        Client.serve target (fun _ => now) (request.frame key numeral) direct =
          (.ok reply', direct') →
        direct'.db.expirations.lookup key = some (now + request.nanoseconds n) := by
  cases parsed.symm.trans (extractCommand_exact spelled key number exact)
  constructor
  · exact queued_deadline_iff wf.plain queue last executed
  · intro direct direct' reply' outside served
    have plain := request.not_controls key (now + request.nanoseconds n)
    rw [serve_plain outside (extractCommand_exact spelled key number exact) plain] at served
    rcases Prod.mk.inj served with ⟨replied, rfl⟩
    have accepted := (effect_eq_ok_iff target plain now direct.db).mp ⟨reply', replied⟩
    exact (lookup_effect_command request _ accepted).2.2

/-- Without any delay the deadline is the time to live after EXEC. -/
theorem queued_ttl_iff_at_once :
    let session : Session :=
      ⟨⟨true, [.set "k" "v" (some 1000005), .get "k"]⟩, DB.newInMemory, 0⟩
    ∃ reply session',
      dispatch ⟨true, 32⟩ (fun _ => 5) 2 session .exec = some (.ok reply, session') ∧
        session'.db.expirations.lookup "k" = some (5 + 1 * 1000000) := by
  intro session
  have number : Signed 31 (utf8Bytes "1") 1 := signed_iff.mpr ⟨"1", rfl, by decide +kernel⟩
  have spelled : (TtlRequest.millis "SET" "PX" "v").Spelled := by
    unfold TtlRequest.Spelled
    decide
  have exact : (TtlRequest.millis "SET" "PX" "v").Exact 1 := by
    unfold TtlRequest.Exact
    decide
  have parsed : Command.extractCommand ⟨true, 32⟩ 5
      ((TtlRequest.millis "SET" "PX" "v").frame "k" "1") =
        .ok (.set "k" "v" (some 1000005)) := by
    decide +kernel
  have wf : session.client.WellFormed := ⟨nofun, by decide⟩
  refine ⟨_, _, rfl, ?_⟩
  exact (@queued_ttl_iff ⟨true, 32⟩ 5 5 session _ wf _ spelled "k" "1" 1 number exact _ parsed []
    [.get "k"] rfl (by simp [Command.WritesTo]) _ rfl).1.mpr rfl

/-- A key with a time to live of one millisecond, queued at time 0: after an EXEC two
milliseconds later it is in the maps and already dead. -/
theorem queued_ttl_lapses :
    let clock : ℕ → Instant := fun tick => if tick < 2 then 0 else 2000000
    let send := Client.serve ⟨true, 32⟩ clock
    let opened := (send (.array [.bulkString "MULTI"]) ⟨Client.new, DB.newInMemory, 0⟩).2
    let queued := (send ((TtlRequest.millis "SET" "PX" "v").frame "k" "1") opened).2
    let executed := send (.array [.bulkString "EXEC"]) queued
    executed.1 = .ok (.array [.simpleString "Ok"]) ∧
      executed.2.db.expirations.lookup "k" = some 1000000 ∧
      executed.2.db.visible 2000000 "k" = none := by
  intro clock send opened queued executed
  refine ⟨rfl, ?_, ?_⟩
  · decide +kernel
  · decide +kernel

end Ember
