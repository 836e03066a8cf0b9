import Ember.Base.Utf8
import Ember.Database.Core

/-!
# Writing snapshots

The bytes `save_rdb` writes.  A hash map is written in the order in which it is
traversed, so that the two maps come as the lists of their entries.  Deadlines
are moved from the monotonic clock to the wall clock by a pair of readings of
their own.
-/

namespace Ember.Rdb

open Ember.Base Ember.Database

/-- A reading of the wall clock, in nanoseconds since the epoch. -/
abbrev SystemTime := ℤ

/-- The two clocks, read one after the other. -/
structure Clocks where
  instant : Instant
  system : SystemTime

/-- One byte for small lengths, otherwise a marker and the low 32 bits. -/
def writeLength (len : ℕ) : List UInt8 :=
  if len < 64 then [UInt8.ofNat len] else 0x80 :: beBytes 4 len

/-- A string behind its length in bytes. -/
def writeString (s : String) : List UInt8 :=
  writeLength (utf8Bytes s).length ++ utf8Bytes s

/-- A text under its key. -/
def writeValue (key value : String) : List UInt8 :=
  [0x00] ++ writeString key ++ writeString value

/-- The items of a list, of which only strings are written. -/
def writeItems (key : String) : List RedisObject → List UInt8
  | [] => []
  | .string s :: rest => writeValue key s ++ writeItems key rest
  | .list _ :: rest => writeItems key rest

/-- One entry of the data map. -/
def writeEntry : String × RedisObject → List UInt8
  | (key, .string s) => writeString "string" ++ writeValue key s
  | (key, .list l) => writeString "list" ++ writeLength l.length ++ writeItems key l

/-- A deadline on the wall clock; one that has passed is replaced by the present. -/
def systemDeadline (expire : Instant) (now : Clocks) : SystemTime :=
  if now.instant < expire then now.system + (expire - now.instant : ℕ) else now.system

/-- The deadline in milliseconds since the epoch, as 64 bits.  A time before the
epoch panics, and so does one whose seconds do not fit a signed word. -/
def expiryMillis (expire : Instant) (now : Clocks) : Outcome String ℕ :=
  if 0 ≤ systemDeadline expire now ∧ systemDeadline expire now < 2 ^ 63 * 1000000000 then
    .ok ((systemDeadline expire now).toNat / 1000000 % 2 ^ 64)
  else
    .panic

/-- A deadline behind its key. -/
def writeExpiry (key : String) (expire : Instant) (now : Clocks) :
    Outcome String (List UInt8) := do
  let ms ← expiryMillis expire now
  return writeString key ++ [0xFC] ++ leBytes 8 ms

/-- The records of the expirations map, the first of which is number `i`. -/
def writeExpiries (clock : ℕ → Clocks) : ℕ → List (String × Instant) → Outcome String (List UInt8)
  | _, [] => .ok []
  | i, (key, expire) :: rest => do
      let record ← writeExpiry key expire (clock i)
      let records ← writeExpiries clock (i + 1) rest
      return record ++ records

/-- The only database: all values, and then all deadlines. -/
def writeDb (clock : ℕ → Clocks) (db : List (String × RedisObject))
    (expirations : List (String × Instant)) : Outcome String (List UInt8) := do
  let expiries ← writeExpiries clock 0 expirations
  return [0xFE] ++ writeLength 0 ++ db.flatMap writeEntry ++ expiries

/-- The file that `save_rdb` leaves behind. -/
def saveRdb (clock : ℕ → Clocks) (db : List (String × RedisObject))
    (expirations : List (String × Instant)) : Outcome String (List UInt8) := do
  let body ← writeDb clock db expirations
  return utf8Bytes "REDIS0001" ++ body

end Ember.Rdb
