import Ember.Base.Reader
import Ember.Rdb.Writer

/-!
# Reading snapshots

The record loop of the loader.  The first byte of a record is an opcode, or it is
the first byte of the length of a text; that text is the name of a data type, or
else the key of an expiry record.
-/

namespace Ember.Rdb

open Ember.Base Ember.Database

/-- A computation that reads from the file. -/
abbrev FileReader := Base.Reader String UInt8

/-- The error of a file that ends too early. -/
def unexpectedEof : String :=
  "failed to fill whole buffer"

/-- The next byte. -/
def readByte : FileReader UInt8 :=
  Reader.readOne unexpectedEof

/-- A byte as two hexadecimal digits. -/
def hexByte (b : UInt8) : String :=
  let digits := "0123456789ABCDEF".toList
  String.ofList [digits.getD (b.toNat / 16) '0', digits.getD (b.toNat % 16) '0']

/-- A length whose first byte was read: one byte below 64, or a mark with four bytes behind
it. -/
def readLengthWithFirst (first : UInt8) : FileReader ℕ :=
  if first < 64 then
    return first.toNat
  else if first = 0x80 then do
    let buf ← Reader.readExact unexpectedEof 4
    return ofBeBytes buf
  else
    Reader.fail ("Unsupported length encoding prefix: 0x" ++ hexByte first)

/-- A length. -/
def readLength : FileReader ℕ := do
  let first ← readByte
  readLengthWithFirst first

/-- A string, the first byte of whose length was read. -/
def readStringWithFirstLen (firstLenByte : UInt8) : FileReader String := do
  let len ← readLengthWithFirst firstLenByte
  let buf ← Reader.readExact unexpectedEof len
  return fromUtf8Lossy buf

/-- A string; bytes that are no text are replaced. -/
def readString : FileReader String := do
  let len ← readLength
  let buf ← Reader.readExact unexpectedEof len
  return fromUtf8Lossy buf

/-- The instant of a wall-clock time in milliseconds; one that has passed becomes
the present. -/
def loadDeadline (ms : ℕ) (now : Clocks) : Instant :=
  now.instant + (ms * 1000000 - now.system).toNat

/-- A deadline, as milliseconds of the wall clock. -/
def readExpiry (now : Clocks) : FileReader Instant := do
  let buf ← Reader.readExact unexpectedEof 8
  return loadDeadline (ofLeBytes buf) now

/-- The header, of which the version is not looked at. -/
def readHeader : FileReader Unit := do
  let buf ← Reader.readExact unexpectedEof 9
  if buf.take 5 = utf8Bytes "REDIS" then
    return ()
  else
    Reader.fail "Invalid header."

/-- What has been loaded so far, and how many expiry records. -/
structure Loaded where
  db : FiniteMap String RedisObject
  expirations : FiniteMap String Instant
  expiries : ℕ

namespace Loaded

/-- Nothing was loaded yet. -/
def empty : Loaded :=
  ⟨∅, ∅, 0⟩

/-- A key with its value. -/
def insertData (loaded : Loaded) (key : String) (value : RedisObject) : Loaded :=
  { loaded with db := loaded.db.insert key value }

/-- A key with its deadline. -/
def insertExpiry (loaded : Loaded) (key : String) (expiry : Instant) : Loaded :=
  { loaded with expirations := loaded.expirations.insert key expiry
                expiries := loaded.expiries + 1 }

end Loaded

/-- One item of a list: its key, which is repeated, and its value. -/
def readItem : FileReader (String × String) := do
  let valueType ← readByte
  if valueType ≠ 0x00 then
    Reader.fail ("Unexpected value type marker for LIST item: " ++ toString valueType.toNat)
  else
    let currentKey ← readString
    let item ← readString
    return (currentKey, item)

/-- The items of a list.  Its key is the one of the first item. -/
def readItems : ℕ → Option String → List RedisObject →
    FileReader (Option String × List RedisObject)
  | 0, key, values => return (key, values)
  | n + 1, key, values => do
      let (currentKey, item) ← readItem
      readItems n (key <|> some currentKey) (values ++ [.string item])

/-- The rest of a record that begins with a text. -/
def parseToken (clock : ℕ → Clocks) (loaded : Loaded) (marker : UInt8) (token : String) :
    FileReader Loaded :=
  match toAsciiUppercase token with
  | "STRING" => do
      let valueType ← readByte
      if valueType ≠ 0x00 then
        Reader.fail ("Unexpected value type marker for STRING: " ++ toString valueType.toNat)
      else
        let key ← readString
        let value ← readString
        return loaded.insertData key (.string value)
  | "LIST" => do
      let length ← readLength
      let (key, values) ← readItems length none []
      match key with
      | some k => return loaded.insertData k (.list values)
      | none => return loaded
  | _ => do
      let expiryOpcode ← readByte
      if expiryOpcode ≠ 0xFC then
        Reader.fail ("Unknown opcode: " ++ toString marker.toNat)
      else
        let expiry ← readExpiry (clock loaded.expiries)
        return loaded.insertExpiry token expiry

/-- One record; nothing is returned for the one that ends the file. -/
def parseRecord (clock : ℕ → Clocks) (loaded : Loaded) : FileReader (Option Loaded) := do
  let marker ← readByte
  if marker = 0xFE then
    let _ ← readLength
    return some loaded
  else if marker = 0xFC then
    let key ← readString
    let expiry ← readExpiry (clock loaded.expiries)
    return some (loaded.insertExpiry key expiry)
  else if marker = 0xFF then
    return none
  else
    let token ← readStringWithFirstLen marker
    return some (← parseToken clock loaded marker token)

/-- The record loop.  A file that ends where a record would begin is complete;
every record takes at least one byte, so that the length of the file bounds the
number of rounds. -/
def parseRecords (clock : ℕ → Clocks) : (fuel : ℕ) → Loaded → List UInt8 → Outcome String Loaded
  | 0, loaded, _ => .ok loaded
  | _ + 1, loaded, [] => .ok loaded
  | fuel + 1, loaded, input =>
      match parseRecord clock loaded input with
      | .ok (some loaded, rest) => parseRecords clock fuel loaded rest
      | .ok (none, _) => .ok loaded
      | .error e => .error e
      | .panic => .panic

/-- A whole file: its header and records up to its end. -/
def parse (clock : ℕ → Clocks) (file : List UInt8) : Outcome String Loaded := do
  let (_, records) ← readHeader file
  parseRecords clock records.length Loaded.empty records

/-- The contents at start, of which there are none without a file. -/
def loadRdb (clock : ℕ → Clocks) : Option (List UInt8) → Outcome String Loaded
  | none => .ok Loaded.empty
  | some file => parse clock file

end Ember.Rdb
