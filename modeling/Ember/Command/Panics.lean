import Ember.Command.Arguments
import Ember.Command.Replay

/-!
# Panics of the dispatcher

Behind the extraction only LRANGE can bring a task down, where overflows are checked: an
index that counts from the end is added to the length of the list in 32 bits, and the
length of a list with 2 ^ 31 items or more does not fit.  EXEC panics with the first
command of its queue that does.
-/

namespace Ember

open Ember.Base Ember.Database Ember.Resp

/-- Counting the index from the end of a list leaves the range of 32 bits. -/
def IndexOverflows (len : ℕ) (index : Int32) : Prop :=
  index < 0 ∧ ¬(-2 ^ 31 ≤ index.toInt + (Int32.ofNat len).toInt ∧
    index.toInt + (Int32.ofNat len).toInt < 2 ^ 31)

namespace Dispatcher

/-- The command asks for a range of a list that is too long for one of its indices. -/
def RangePanics (target : Target) (now : Instant) (db : DB) : Command → Prop
  | .lrange key start stop => target.overflowChecks = true ∧
      ∃ items, db.visible now key = some (.list items) ∧
        (IndexOverflows items.length start ∨ IndexOverflows items.length stop)
  | _ => False

/-- A command of a queue panics, and those before it are accepted. -/
def QueuePanics (target : Target) (clock : ℕ → Instant) : ℕ → DB → List Command → Prop
  | _, _, [] => False
  | tick, db, c :: rest => RangePanics target (clock tick) db c ∨
      Accepted target (clock tick) db c ∧
        QueuePanics target clock (tick + 1) (effect target (clock tick) db c).2 rest

/-- A command panics when a client dispatches it. -/
def Panics (target : Target) (clock : ℕ → Instant) (session : Session) : Command → Prop
  | .exec => QueuePanics target clock session.tick session.db session.client.queuedCommands
  | c => session.client.inTransaction = false ∧
      RangePanics target (clock session.tick) session.db c

variable {target : Target} {clock : ℕ → Instant}

theorem fromEnd_eq_panic_iff {len : ℕ} {index : Int32} :
    DB.fromEnd target len index = .panic ↔
      target.overflowChecks = true ∧ IndexOverflows len index := by
  unfold DB.fromEnd IndexOverflows
  split
  next negative =>
    rw [Target.addI32, Target.wrapI32_eq_panic_iff]
    exact and_congr_right fun _ => (and_iff_right negative).symm
  next nonnegative => exact iff_of_false (by rintro ⟨⟩) fun overflow => nonnegative overflow.2.1

theorem fromEnd_ne_error {len : ℕ} {index : Int32} (e : String) :
    DB.fromEnd target len index ≠ .error e := by
  unfold DB.fromEnd
  split
  · exact fun failed => target.wrapI32_failsWith (fun _ => False) _ _ e failed
  · rintro ⟨⟩

theorem range_eq_panic_iff {start stop : Int32} {items : List RedisObject} :
    DB.range target start stop items = .panic ↔ target.overflowChecks = true ∧
      (IndexOverflows items.length start ∨ IndexOverflows items.length stop) := by
  rw [DB.range, Outcome.bind_eq_panic_iff, fromEnd_eq_panic_iff]
  constructor
  · rintro (⟨checks, overflow⟩ | ⟨first, -, later⟩)
    · exact ⟨checks, Or.inl overflow⟩
    · rcases Outcome.bind_eq_panic_iff.mp later with panics | ⟨last, -, done⟩
      · exact ⟨(fromEnd_eq_panic_iff.mp panics).1, Or.inr (fromEnd_eq_panic_iff.mp panics).2⟩
      · cases done
  · rintro ⟨checks, overflow | overflow⟩
    · exact Or.inl ⟨checks, overflow⟩
    · have panics := fromEnd_eq_panic_iff.mpr ⟨checks, overflow⟩
      cases counted : DB.fromEnd target items.length start with
      | ok first => exact Or.inr ⟨first, rfl, Outcome.bind_eq_panic_iff.mpr (Or.inl panics)⟩
      | error e => exact absurd counted (fromEnd_ne_error e)
      | panic => exact Or.inl (fromEnd_eq_panic_iff.mp counted)

/-- Of the plain commands only LRANGE panics. -/
theorem effect_eq_panic_iff {c : Command} (plain : ¬c.Controls) {now : Instant} {db : DB} :
    (effect target now db c).1 = .panic ↔ RangePanics target now db c := by
  cases c with
  | multi | discard | exec => exact absurd trivial plain
  | ping | echo | save | delete => exact iff_of_false (by rintro ⟨⟩) id
  | set key value expiresAt =>
      rw [effect_set]
      exact iff_of_false (by rintro ⟨⟩) id
  | get key =>
      rw [effect_get]
      refine iff_of_false ?_ id
      rcases db.visible now key with _ | (text | items) <;> rintro ⟨⟩
  | lpush key values =>
      rw [effect_lpush, DB.lpush, DB.exec_push]
      refine iff_of_false ?_ id
      rcases db.data.lookup key with _ | (text | items) <;> rintro ⟨⟩
  | rpush key values =>
      rw [effect_rpush, DB.rpush, DB.exec_push]
      refine iff_of_false ?_ id
      rcases db.data.lookup key with _ | (text | items) <;> rintro ⟨⟩
  | expire key expiresAt option =>
      rw [effect_expire, DB.exec_expire]
      refine iff_of_false ?_ id
      split
      · split <;> rintro ⟨⟩
      · rintro ⟨⟩
  | lrange key start stop =>
      rw [effect_lrange, RangePanics]
      rcases found : db.visible now key with _ | (text | items)
      · simp [DB.lrangeReply, replyWith, replyLrange, DB.nil]
      · simp [DB.lrangeReply, replyWith]
      · have replied :
            replyWith replyLrange (DB.lrangeReply target start stop (some (.list items))) = .panic ↔
              DB.range target start stop items = .panic := by
          rw [DB.lrangeReply]
          cases DB.range target start stop items with
          | ok items => exact iff_of_false (by rintro ⟨⟩) (by rintro ⟨⟩)
          | error e => exact iff_of_false (by rintro ⟨⟩) (by rintro ⟨⟩)
          | panic => exact iff_of_true rfl rfl
        rw [replied, range_eq_panic_iff]
        exact and_congr_right fun _ => ⟨fun overflow => ⟨items, rfl, overflow⟩, by
          rintro ⟨_, ⟨⟩, overflow⟩
          exact overflow⟩

/-! ## EXEC -/

theorem executeQueue_eq_panic_iff {queue : List Command} (plain : ∀ c ∈ queue, ¬c.Controls)
    (depth : ℕ) (replies : List RespType) (session : Session) :
    (∃ session', executeQueue (executeCommand target clock (depth + 1)) queue replies session =
      some (.panic, session')) ↔ QueuePanics target clock session.tick session.db queue := by
  induction queue generalizing replies session with
  | nil => exact iff_of_false (by rintro ⟨session', ⟨⟩⟩) id
  | cons c rest ih =>
      rcases List.forall_mem_cons.mp plain with ⟨plainHead, plainRest⟩
      have okIff := effect_eq_ok_iff target plainHead (clock session.tick) session.db
      have panicIff := @effect_eq_panic_iff target c plainHead (clock session.tick) session.db
      rw [executeQueue, executeCommand_plain target clock plainHead depth session, QueuePanics,
        ← okIff, ← panicIff]
      cases (effect target (clock session.tick) session.db c).1 with
      | ok reply =>
          have later : _ ↔ QueuePanics target clock (session.tick + 1)
              (effect target (clock session.tick) session.db c).2 rest :=
            ih plainRest (replies ++ [reply]) (advance target clock session c)
          simpa using later
      | error e => simp
      | panic => simp

/-- When the dispatcher panics. -/
theorem dispatch_eq_panic_iff {session : Session} (wf : session.client.WellFormed) (depth : ℕ)
    (cmd : Command) :
    (∃ session', dispatch target clock (depth + 2) session cmd = some (.panic, session')) ↔
      Panics target clock session cmd := by
  have outside : ∀ {c : Command}, ¬c.Controls → session.client.inTransaction = false →
      ((∃ session', dispatch target clock (depth + 2) session c = some (.panic, session')) ↔
        RangePanics target (clock session.tick) session.db c) := by
    intro c plain outside
    rw [dispatch_of_outside outside, executeCommand_plain target clock plain,
      ← effect_eq_panic_iff plain]
    simp
  cases cmd with
  | exec =>
      have run : dispatch target clock (depth + 2) session .exec =
          executeQueue (executeCommand target clock (depth + 1)) session.client.queuedCommands []
            session := ite_self _
      rw [run, executeQueue_eq_panic_iff wf.plain, Panics]
  | multi | discard =>
      refine iff_of_false ?_ And.right
      unfold dispatch
      split <;> rintro ⟨session', ⟨⟩⟩
  | _ =>
      cases inside : session.client.inTransaction with
      | true =>
          refine iff_of_false ?_ fun panics => Bool.noConfusion (inside.symm.trans panics.1)
          simp only [dispatch, if_pos inside]
          rintro ⟨session', ⟨⟩⟩
      | false =>
          rw [outside id inside]
          exact (and_iff_right inside).symm

end Dispatcher

/-! ## Frames that name LRANGE and EXEC -/

namespace Command

variable {target : Target} {now : Instant} {name : String} {args : List RespType} {c : Command}

theorem parseSet_eq_ok (parsed : parseSet target now args = .ok c) :
    ∃ key value expiresAt, c = .set key value expiresAt := by
  rcases args with _ | ⟨key, _ | ⟨value, rest⟩⟩
  · cases parsed
  · cases parsed
  · by_cases texts : IsText key ∧ IsText value
    · rcases texts with ⟨⟨key, rfl⟩, ⟨value, rfl⟩⟩
      rw [parseSet_texts] at parsed
      split at parsed
      · rcases Outcome.bind_eq_ok_iff.mp parsed with ⟨expiresAt, -, ⟨⟩⟩
        exact ⟨key, value, _, rfl⟩
      · cases parsed
        exact ⟨key, value, none, rfl⟩
    · rw [parseSet_mixed texts] at parsed
      cases parsed

theorem parseExpire_eq_ok (parsed : parseExpire now args = .ok c) :
    ∃ key expiresAt option, c = .expire key expiresAt option := by
  rcases args with _ | ⟨key, _ | ⟨expiresIn, rest⟩⟩
  · cases parsed
  · cases parsed
  · by_cases texts : IsText key ∧ IsText expiresIn
    · rcases texts with ⟨⟨key, rfl⟩, ⟨expiresIn, rfl⟩⟩
      rw [parseExpire_texts] at parsed
      rcases Outcome.bind_eq_ok_iff.mp parsed with ⟨option, -, ⟨⟩⟩
      exact ⟨key, _, option, rfl⟩
    · rw [parseExpire_mixed texts] at parsed
      cases parsed

theorem parseLrange_eq_ok_iff : parseLrange args = .ok c ↔ ∃ key start stop rest,
    args = .bulkString key :: .bulkString start :: .bulkString stop :: rest ∧
      c = .lrange key (parseInt start) (parseInt stop) := by
  constructor
  · intro parsed
    rcases args with _ | ⟨key, _ | ⟨start, _ | ⟨stop, rest⟩⟩⟩
    iterate 3 cases parsed
    by_cases texts : IsText key ∧ IsText start ∧ IsText stop
    · rcases texts with ⟨⟨key, rfl⟩, ⟨start, rfl⟩, ⟨stop, rfl⟩⟩
      cases parsed
      exact ⟨key, start, stop, rest, rfl, rfl⟩
    · rw [parseLrange_mixed texts] at parsed
      cases parsed
  · rintro ⟨key, start, stop, rest, rfl, rfl⟩
    rfl

/-- Which of the commands that may panic a frame asks for. -/
theorem parseCommand_cases (parsed : parseCommand target now name args = .ok c) :
    (name = "EXEC" ∧ c = .exec) ∨ (name = "LRANGE" ∧ parseLrange args = .ok c) ∨
      name ≠ "EXEC" ∧ name ≠ "LRANGE" ∧ c ≠ .exec ∧
        ∀ key start stop, c ≠ .lrange key start stop := by
  revert parsed
  fun_cases parseCommand target now name args with
  | case12 =>
      intro parsed
      exact Or.inl ⟨rfl, (Outcome.ok.inj parsed).symm⟩
  | case8 =>
      intro parsed
      exact Or.inr (Or.inl ⟨rfl, parsed⟩)
  | case3 =>
      intro parsed
      rcases parseSet_eq_ok parsed with ⟨_, _, _, rfl⟩
      exact Or.inr (Or.inr ⟨by decide, by decide, by rintro ⟨⟩, by rintro _ _ _ ⟨⟩⟩)
  | case9 =>
      intro parsed
      rcases parseExpire_eq_ok parsed with ⟨_, _, _, rfl⟩
      exact Or.inr (Or.inr ⟨by decide, by decide, by rintro ⟨⟩, by rintro _ _ _ ⟨⟩⟩)
  | case2 | case4 | case5 | case6 | case7 =>
      intro parsed
      rcases parseText_eq_ok_iff.mp parsed with ⟨_, _, -, rfl⟩
      exact Or.inr (Or.inr ⟨by decide, by decide, by rintro ⟨⟩, by rintro _ _ _ ⟨⟩⟩)
  | case1 | case10 | case11 | case13 | case14 =>
      rintro ⟨⟩
      exact Or.inr (Or.inr ⟨by decide, by decide, by rintro ⟨⟩, by rintro _ _ _ ⟨⟩⟩)
  | case15 => rintro ⟨⟩

end Command

end Ember
