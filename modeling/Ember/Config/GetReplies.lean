import Ember.Command.Replay
import Ember.Config.Segmentation
import Ember.Resp.Grammar

/-!
# What the reply to GET says

The reply to GET tells a visible string, a list and a missing key apart, with one
exception: a missing key is answered by the text `nil`, which is also the reply to
a string of that value.
-/

namespace Ember

open Ember.Base Ember.Database Ember.Resp Dispatcher

/-- The bytes of the reply to a command. -/
def replyBytes (outcome : Outcome String RespType) : Option (List UInt8) :=
  (answer outcome).map fun reply => reply.writeTo (fun data sent => sent ++ data) []

/-- The bytes that GET is answered with. -/
def getBytes (target : Target) (clock : ℕ → Instant) (session : Session) (key : String) :
    Option (List UInt8) :=
  (dispatch target clock 2 session (.get key)).bind fun result => replyBytes result.1

/-- What GET is meant to tell: the string of a key, that it has a list, or that there
is nothing to see. -/
def Alike : Option RedisObject → Option RedisObject → Prop
  | none, none => True
  | some (.string s), some (.string s') => s = s'
  | some (.list _), some (.list _) => True
  | _, _ => False

/-- The reply to GET for what is visible. -/
def getAnswer : Option RedisObject → RespType
  | none => .bulkString "nil"
  | some (.string s) => .bulkString s
  | some (.list _) => .simpleError "Wrong data type. Expected String, got List."

theorem replyBytes_eq (outcome : Outcome String RespType) :
    replyBytes outcome = (answer outcome).map RespType.toBytes := by
  apply congrArg (Option.map · (answer outcome))
  funext reply
  exact @RespType.written_writeTo _ _ id (fun _ _ => rfl) reply []

theorem getBytes_eq (target : Target) (clock : ℕ → Instant) {session : Session}
    (outside : session.client.inTransaction = false) (key : String) :
    getBytes target clock session key =
      some (getAnswer (session.db.visible (clock session.tick) key)).toBytes := by
  have plain : ¬(Command.get key).Controls := nofun
  rw [getBytes, dispatch_of_outside outside, executeCommand_plain target clock plain,
    Option.bind_some, replyBytes_eq, effect_get]
  rcases session.db.visible (clock session.tick) key with _ | (text | items) <;> rfl

theorem toBytes_bulkString_injective {text text' : String}
    (same : (RespType.bulkString text).toBytes = (RespType.bulkString text').toBytes) :
    text = text' := by
  have unbroken : ∀ n : ℕ, Unbroken (utf8Bytes n.repr) := fun n => Parser.not_crlf_infix_repr n
  rw [RespType.toBytes_bulkString, RespType.toBytes_bulkString] at same
  have lines : utf8Bytes (utf8Bytes text).length.repr ++ RespType.crlf ++
        (utf8Bytes text ++ RespType.crlf) =
      utf8Bytes (utf8Bytes text').length.repr ++ RespType.crlf ++
        (utf8Bytes text' ++ RespType.crlf) := by
    simpa only [List.cons_append, List.append_assoc, List.cons.injEq, true_and] using same
  have bodies := (Parser.eq_of_lines (unbroken _) (unbroken _) lines).2
  exact utf8Bytes_injective (List.append_cancel_right bodies)

theorem toBytes_bulkString_ne_simpleError (text message : String) :
    (RespType.bulkString text).toBytes ≠ (RespType.simpleError message).toBytes := by
  intro same
  rw [RespType.toBytes_bulkString, RespType.toBytes_simpleError] at same
  exact absurd (List.cons.inj same).1 (by decide)

/-- Replies of the same bytes come from what is alike, or from the text `nil` and
nothing. -/
theorem toBytes_getAnswer_eq_iff (value value' : Option RedisObject) :
    (getAnswer value).toBytes = (getAnswer value').toBytes ↔
      Alike value value' ∨ value = some (.string "nil") ∧ value' = none ∨
        value = none ∧ value' = some (.string "nil") := by
  have strings : ∀ text text' : String,
      (RespType.bulkString text).toBytes = (RespType.bulkString text').toBytes ↔ text = text' :=
    fun _ _ => ⟨toBytes_bulkString_injective, fun same => same ▸ rfl⟩
  have errors : ∀ text message : String,
      (RespType.bulkString text).toBytes ≠ (RespType.simpleError message).toBytes :=
    toBytes_bulkString_ne_simpleError
  rcases value with _ | (text | items) <;> rcases value' with _ | (text' | items') <;>
    simp [getAnswer, Alike, strings, errors, (errors _ _).symm, eq_comm]

/-- In any two sessions and at any two times, the reply to GET tells what is visible
under the key, unless one of them sees nothing and the other one the text `nil`. -/
theorem getBytes_determines_iff (target : Target) (clock clock' : ℕ → Instant)
    {session session' : Session} (outside : session.client.inTransaction = false)
    (outside' : session'.client.inTransaction = false) (key : String) :
    let value := session.db.visible (clock session.tick) key
    let value' := session'.db.visible (clock' session'.tick) key
    (getBytes target clock session key).isSome ∧
      ((getBytes target clock session key = getBytes target clock' session' key →
          Alike value value') ↔
        ¬(value = some (.string "nil") ∧ value' = none ∨
          value = none ∧ value' = some (.string "nil"))) := by
  intro value value'
  rw [getBytes_eq target clock outside, getBytes_eq target clock' outside', Option.some.injEq,
    toBytes_getAnswer_eq_iff]
  refine ⟨rfl, ?_⟩
  constructor
  · intro tells collision
    have alike := tells (Or.inr collision)
    rcases collision with ⟨first, second⟩ | ⟨first, second⟩
    · rwa [first, second] at alike
    · rwa [first, second] at alike
  · rintro different (alike | collision)
    · exact alike
    · exact absurd collision different

/-- Two sessions with different strings get different replies. -/
theorem getBytes_determines_iff_strings :
    let session : String → Session := fun text =>
      ⟨Client.new, ⟨FiniteMap.put ∅ "k" (some (.string text)), ∅⟩, 0⟩
    getBytes ⟨true, 32⟩ id (session "a") "k" ≠ getBytes ⟨true, 32⟩ id (session "b") "k" := by
  intro session same
  have tells := @getBytes_determines_iff ⟨true, 32⟩ id id (session "a") (session "b") rfl rfl "k"
  have equal : "a" = "b" := tells.2.mpr (by decide) same
  exact absurd equal (by decide)

/-- After `SET k nil`, GET is answered as if nothing had been stored. -/
theorem getBytes_collides :
    let fresh : Session := ⟨Client.new, DB.newInMemory, 0⟩
    ∃ reply stored,
      dispatch ⟨true, 32⟩ id 2 fresh (.set "k" "nil" none) = some (.ok reply, stored) ∧
      stored.db.visible 1 "k" = some (.string "nil") ∧ fresh.db.visible 0 "k" = none ∧
      getBytes ⟨true, 32⟩ id stored "k" = getBytes ⟨true, 32⟩ id fresh "k" :=
  ⟨_, _, rfl, rfl, rfl, rfl⟩

end Ember
