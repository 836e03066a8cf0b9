import Ember.Base.FiniteMap
import Ember.Base.Prog
import Ember.Base.Word

/-!
# The database

The store is a pair of concurrent maps, from keys to values and from keys to
deadlines.  Each operation is the program of map calls it makes, in the order in
which it makes them; one map call is one atomic step.  What the environment
decides (the clock, the random offset and the iteration order of the sampler) is
answered from an `Env`.
-/

namespace Ember.Database

open Ember.Base

universe u

/-- A stored value. -/
inductive RedisObject where
  | string (text : String)
  | list (items : List RedisObject)
  deriving Repr

namespace RedisObject

mutual

/-- Equality of stored values. -/
def decEq : (a b : RedisObject) → Decidable (a = b)
  | string a, string b =>
      if same : a = b then isTrue (congrArg string same)
      else isFalse fun equal => same (string.inj equal)
  | list a, list b =>
      match decEqItems a b with
      | isTrue same => isTrue (congrArg list same)
      | isFalse differ => isFalse fun equal => differ (list.inj equal)
  | string _, list _ => isFalse nofun
  | list _, string _ => isFalse nofun

/-- Equality of lists of stored values. -/
def decEqItems : (a b : List RedisObject) → Decidable (a = b)
  | [], [] => isTrue rfl
  | x :: a, y :: b =>
      match decEq x y, decEqItems a b with
      | isTrue head, isTrue tail => isTrue (by rw [head, tail])
      | isFalse differ, _ => isFalse fun equal => differ (List.cons.inj equal).1
      | _, isFalse differ => isFalse fun equal => differ (List.cons.inj equal).2
  | [], _ :: _ => isFalse nofun
  | _ :: _, [] => isFalse nofun

end

instance : DecidableEq RedisObject :=
  decEq

end RedisObject

/-- A reading of the monotonic clock, in nanoseconds. -/
abbrev Instant := ℕ

/-- The shared server state. -/
structure DB where
  data : FiniteMap String RedisObject
  expirations : FiniteMap String Instant

/-- A fresh database, not loaded from disk. -/
def DB.newInMemory : DB :=
  ⟨∅, ∅⟩

/-- The calls the operations are made of. -/
inductive Call where
  | now
  | randomRange (total : ℕ)
  | dataGet (key : String)
  | dataContainsKey (key : String)
  | dataInsert (key : String) (value : RedisObject)
  | dataRemove (key : String)
  | dataGetMut (key : String) (update : RedisObject → Outcome String RedisObject)
  | expirationsGet (key : String)
  | isExpired (key : String)
  | expirationsContainsKey (key : String)
  | expirationsInsert (key : String) (deadline : Instant)
  | expirationsRemove (key : String)
  | expirationsLen
  | expirationsIter

/-- The answer of a call. -/
abbrev Call.Response : Call → Type
  | now => Instant
  | randomRange _ => ℕ
  | dataGet _ => Option RedisObject
  | dataContainsKey _ => Bool
  | dataInsert _ _ => Unit
  | dataRemove _ => Unit
  | dataGetMut _ _ => Option (Outcome String Unit)
  | expirationsGet _ => Option Instant
  | isExpired _ => Bool
  | expirationsContainsKey _ => Bool
  | expirationsInsert _ _ => Unit
  | expirationsRemove _ => Unit
  | expirationsLen => ℕ
  | expirationsIter => List String

/-- What the environment answers at one call.  The keys an iterator yields are
left entirely open: shards are visited in any order, and other tasks may add and
remove keys meanwhile. -/
structure Env where
  now : Instant
  order : List String
  skip : ℕ

/-- The environment of an operation that only reads the clock. -/
def Env.at (now : Instant) : Env :=
  ⟨now, [], 0⟩

/-- The atomic effect of one call. -/
def Call.step (env : Env) : (op : Call) → DB → op.Response × DB
  | now, db => (env.now, db)
  | randomRange total, db => (env.skip % total, db)
  | dataGet key, db => (db.data.lookup key, db)
  | dataContainsKey key, db => ((db.data.lookup key).isSome, db)
  | dataInsert key value, db => ((), { db with data := db.data.insert key value })
  | dataRemove key, db => ((), { db with data := db.data.erase key })
  | dataGetMut key update, db =>
      -- The entry stays locked while it is updated in place.
      match db.data.lookup key with
      | none => (none, db)
      | some value =>
          match update value with
          | .ok value => (some (.ok ()), { db with data := db.data.insert key value })
          | .error reason => (some (.error reason), db)
          | .panic => (some .panic, db)
  | expirationsGet key, db => (db.expirations.lookup key, db)
  | isExpired key, db =>
      -- The entry stays locked while the clock is read.
      ((db.expirations.lookup key).any (· < env.now), db)
  | expirationsContainsKey key, db => ((db.expirations.lookup key).isSome, db)
  | expirationsInsert key deadline, db =>
      ((), { db with expirations := db.expirations.insert key deadline })
  | expirationsRemove key, db => ((), { db with expirations := db.expirations.erase key })
  | expirationsLen, db => (db.expirations.keys.card, db)
  | expirationsIter, db => (env.order, db)

/-- Programs of map calls. -/
abbrev DbProg := Prog Call Call.Response

/-- The program that makes one map call. -/
abbrev perform (op : Call) : DbProg op.Response :=
  Prog.perform op

namespace DB

/-- The old deadline goes first, and the new one is stored last. -/
def set (key : String) (val : RedisObject) (expiresAt : Option Instant) :
    DbProg (Outcome String Unit) := do
  perform (.expirationsRemove key)
  perform (.dataInsert key val)
  match expiresAt with
  | some exp =>
      perform (.expirationsInsert key exp)
      return .ok ()
  | none => return .ok ()

/-- The value that stands for a missing key. -/
def nil : RedisObject :=
  .string "nil"

/-- The check `get` and `lrange` open with: a key whose deadline has passed is
removed from both maps, and the answer is whether it was. -/
def lazyExpiration (key : String) : DbProg Bool := do
  match ← perform (.expirationsGet key) with
  | some _ =>
      if ← perform (.isExpired key) then
        perform (.dataRemove key)
        perform (.expirationsRemove key)
        return true
      else
        return false
  | none => return false

/-- A missing key reads as the text nil. -/
def get (key : String) : DbProg (Outcome String RedisObject) := do
  if ← lazyExpiration key then
    return .ok nil
  else
    match ← perform (.dataGet key) with
    | some ro => return .ok ro
    | none => return .ok nil

/-- Both maps forget the key, the value first. -/
def delete (key : String) : DbProg (Outcome String Unit) := do
  perform (.dataRemove key)
  perform (.expirationsRemove key)
  return .ok ()

/-- The in-place update of the push operations, which only lists accept. -/
def extendList (update : List RedisObject → List RedisObject) :
    RedisObject → Outcome String RedisObject
  | .list list => .ok (.list (update list))
  | .string _ => .error "Wrong data type. Expected List, got String."

/-- The push operations: a missing key is bound to `fresh`, a list is updated in
place, anything else is refused. -/
def push (key : String) (fresh : List RedisObject)
    (update : List RedisObject → List RedisObject) : DbProg (Outcome String Unit) := do
  match ← perform (.dataGetMut key (extendList update)) with
  | none =>
      perform (.dataInsert key (.list fresh))
      return .ok ()
  | some result => return result

/-- A new list holds the values in reverse; an existing one gets them, unreversed,
in front of its items. -/
def lpush (key : String) (values : List RedisObject) : DbProg (Outcome String Unit) :=
  push key values.reverse fun list => values ++ list

/-- The values come behind those that are there. -/
def rpush (key : String) (values : List RedisObject) : DbProg (Outcome String Unit) :=
  push key values fun list => list ++ values

/-- A negative index counts from the end; the length is truncated to 32 bits. -/
def fromEnd (target : Target) (len : ℕ) (index : Int32) : Outcome String Int32 :=
  if index < 0 then target.addI32 index (Int32.ofNat len) else .ok index

/-- The items of a list between two indices, both included. -/
def range (target : Target) (start stop : Int32) (list : List RedisObject) :
    Outcome String (List RedisObject) := do
  let start ← fromEnd target list.length start
  let stop ← fromEnd target list.length stop
  return (list.zipIdx.filter fun (_, idx) => asU64 start ≤ idx ∧ idx ≤ asU64 stop).map Prod.fst

/-- A missing key reads as the text nil here as well. -/
def lrange (target : Target) (key : String) (start stop : Int32) :
    DbProg (Outcome String RedisObject) := do
  if ← lazyExpiration key then
    return .ok nil
  else
    match ← perform (.dataGet key) with
    | none => return .ok nil
    | some (.list list) => return .list <$> range target start stop list
    | some (.string _) => return .error "Wrong type. Expected list."

/-- Whether EXPIRE under an option replaces the deadline; unknown options have no
answer. -/
def updateExpiry (key : String) (expiresAt : Instant) : Option String → DbProg (Option Bool)
  | none => return some true
  | some opt => do
      if opt = "NX" then
        return some !(← perform (.expirationsContainsKey key))
      else if opt = "XX" then
        return some (← perform (.expirationsContainsKey key))
      else if opt = "GT" then
        return some ((← perform (.expirationsGet key)).any (· < expiresAt))
      else if opt = "LT" then
        return some ((← perform (.expirationsGet key)).any (expiresAt < ·))
      else
        return none

/-- The value is looked for first, and the option checked after that. -/
def expire (key : String) (expiresAt : Instant) (option : Option String) :
    DbProg (Outcome String Unit) := do
  if ← perform (.dataContainsKey key) then
    match ← updateExpiry key expiresAt option with
    | some true =>
        perform (.expirationsInsert key expiresAt)
        return .ok ()
    | some false => return .ok ()
    | none => return .error "Invalid option for expire command."
  else
    return .error "Entry not found."

/-- How many deadlines a pass of the cleanup looks at. -/
def sampleSize : ℕ := 20

/-- The loop of a cleanup pass over its sample: keys whose deadline lies before
`now` are removed from both maps and counted. -/
def reapSample (now : Instant) : List String → ℕ → DbProg ℕ
  | [], expired => return expired
  | key :: rest, expired => do
      match ← perform (.expirationsGet key) with
      | some exp =>
          if exp < now then
            perform (.dataRemove key)
            perform (.expirationsRemove key)
            reapSample now rest (expired + 1)
          else
            reapSample now rest expired
      | none => reapSample now rest expired

/-- One pass of the cleanup cycle; the answer is whether more than a quarter of
the sample was expired, so that the pass is repeated at once. -/
def activeExpirationPass : DbProg Bool := do
  let now ← perform .now
  let total ← perform .expirationsLen
  if total = 0 then
    return false
  else
    let skip ← perform (.randomRange total)
    let order ← perform .expirationsIter
    let sampled := (order.drop skip).take sampleSize
    let expired ← reapSample now sampled 0
    return max sampled.length 1 < 4 * expired

/-- The cleanup cycle, repeated at most `fuel` times; the answer is whether it
returned within them. -/
def activeExpirationCycle : (fuel : ℕ) → DbProg Bool
  | 0 => return false
  | fuel + 1 => do
      if ← activeExpirationPass then activeExpirationCycle fuel else return true

end DB

end Ember.Database
