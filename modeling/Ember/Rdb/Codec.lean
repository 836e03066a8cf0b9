import Ember.Rdb.Lengths

/-!
# Reading back what was written

Each part of a snapshot is decoded by the reader of that part, whatever follows
it in the file.  The exception is the expiry record of a key that spells the name
of a data type, which the record loop takes for a data record.
-/

namespace Ember.Rdb

open Ember.Base Ember.Database Reader

/-! ## Data records -/

/-- A value that is written as a whole: a string, or a list of strings. -/
def Storable : RedisObject → Prop
  | .string s => ShortText s
  | .list items => items.length < 2 ^ 32 ∧ ∀ item ∈ items, ∃ s, item = .string s ∧ ShortText s

instance (item : RedisObject) : Decidable (∃ s, item = .string s ∧ ShortText s) :=
  match item with
  | .string s => decidable_of_iff (ShortText s) (by simp)
  | .list _ => isFalse (by simp)

instance : DecidablePred Storable
  | .string s => inferInstanceAs (Decidable (ShortText s))
  | .list items => inferInstanceAs (Decidable (items.length < 2 ^ 32 ∧
      ∀ item ∈ items, ∃ s, item = .string s ∧ ShortText s))

theorem decodes_readItem {key s : String} (shortKey : ShortText key) (short : ShortText s) :
    Decodes readItem (writeValue key s) (key, s) := by
  rw [writeValue, List.append_assoc]
  apply (decodes_readOne unexpectedEof (0 : UInt8)).bind
  exact (decodes_readString shortKey).bind (decodes_readString short).bind_pure

/-- The items of a list give it the key of the first one, if there is one. -/
theorem decodes_readItems {key : String} (shortKey : ShortText key) {items : List RedisObject}
    (texts : ∀ item ∈ items, ∃ s, item = .string s ∧ ShortText s) (found : Option String)
    (values : List RedisObject) :
    Decodes (readItems items.length found values) (writeItems key items)
      (if items = [] then found else found <|> some key, values ++ items) := by
  induction items generalizing found values with
  | nil =>
      rw [if_pos rfl, List.append_nil]
      exact decodes_pure (found, values)
  | cons item rest ih =>
      rcases List.forall_mem_cons.mp texts with ⟨⟨s, rfl, short⟩, textsRest⟩
      apply (decodes_readItem shortKey short).bind
      have tail := ih textsRest (found <|> some key) (values ++ [.string s])
      have same : (if rest = [] then found <|> some key else (found <|> some key) <|> some key) =
          (found <|> some key) := by
        split <;> cases found <;> rfl
      rw [same, List.append_assoc] at tail
      exact tail

/-- What a data record adds: a list without items leaves no trace. -/
def Loaded.addEntry (loaded : Loaded) : String × RedisObject → Loaded
  | (_, .list []) => loaded
  | (key, value) => loaded.insertData key value

section Records

variable (clock : ℕ → Clocks) (loaded : Loaded)

/-- A record that begins with a text is read by the branch for that text. -/
theorem parseRecord_token {token : String} (short : ShortText token) :
    ∃ marker, ∀ rest, parseRecord clock loaded (writeString token ++ rest) =
      (some <$> parseToken clock loaded marker token : FileReader (Option Loaded)) rest := by
  rcases writeString_eq short with ⟨first, tail, bytes, start, decoded⟩
  rcases start.not_opcode with ⟨notFE, notFC, notFF⟩
  refine ⟨first, fun rest => ?_⟩
  have branch : parseRecord clock loaded (first :: (tail ++ rest)) =
      (readStringWithFirstLen first >>= fun token =>
        some <$> parseToken clock loaded first token : FileReader (Option Loaded))
          (tail ++ rest) := by
    change (if first = 0xFE then _ else if first = 0xFC then _ else if first = 0xFF then _ else _ :
      FileReader (Option Loaded)) (tail ++ rest) = _
    rw [if_neg notFE, if_neg notFC, if_neg notFF]
    simp only [bind_pure_comp]
  rw [bytes, List.cons_append, branch]
  change (readStringWithFirstLen first (tail ++ rest) >>= _) = _
  rw [decoded rest]
  rfl

variable {clock loaded}

theorem decodes_parseRecord {token : String} (short : ShortText token) {back : List UInt8}
    {loaded' : Loaded}
    (decoded : ∀ marker, Decodes (parseToken clock loaded marker token) back loaded') :
    Decodes (parseRecord clock loaded) (writeString token ++ back) (some loaded') := by
  rcases parseRecord_token clock loaded short with ⟨marker, branch⟩
  intro rest
  rw [List.append_assoc, branch]
  exact (decoded marker).map some rest

theorem refuses_parseRecord {token : String} (short : ShortText token) {back : List UInt8}
    (refused : ∀ marker, Refuses (parseToken clock loaded marker token) back) :
    Refuses (parseRecord clock loaded) (writeString token ++ back) := by
  rcases parseRecord_token clock loaded short with ⟨marker, branch⟩
  intro rest
  rw [List.append_assoc, branch]
  exact (refused marker).map some rest

variable (clock loaded)

theorem decodes_writeEntry {key : String} {value : RedisObject} (shortKey : ShortText key)
    (storable : Storable value) :
    Decodes (parseRecord clock loaded) (writeEntry (key, value))
      (some (loaded.addEntry (key, value))) := by
  cases value with
  | string s =>
      have upper : toAsciiUppercase "string" = "STRING" := by decide
      apply decodes_parseRecord (show ShortText "string" by decide)
      intro marker
      simp only [parseToken, upper]
      rw [writeValue, List.append_assoc]
      apply (decodes_readOne unexpectedEof (0 : UInt8)).bind
      exact (decodes_readString shortKey).bind (decodes_readString storable).bind_pure
  | list items =>
      have upper : toAsciiUppercase "list" = "LIST" := by decide
      rw [writeEntry, List.append_assoc]
      apply decodes_parseRecord (show ShortText "list" by decide)
      intro marker
      simp only [parseToken, upper]
      apply (decodes_readLength storable.1).bind
      have read := decodes_readItems shortKey storable.2 none []
      rw [← List.append_nil (writeItems key items)]
      cases items with
      | nil => exact read.bind (decodes_pure loaded)
      | cons item rest =>
          rw [if_neg (List.cons_ne_nil item rest)] at read
          exact read.bind (decodes_pure (loaded.insertData key (.list (item :: rest))))

/-! ## Expiry records -/

theorem decodes_readExpiry {ms : ℕ} (fits : ms < 2 ^ 64) (now : Clocks) :
    Decodes (readExpiry now) (leBytes 8 ms) (loadDeadline ms now) := by
  have eight := decodes_readExact unexpectedEof (leBytes 8 ms)
  rw [length_leBytes] at eight
  have value : ofLeBytes (leBytes 8 ms) = ms := by
    rw [ofLeBytes_leBytes]
    exact Nat.mod_eq_of_lt fits
  have decoded := eight.bind_pure (f := fun buf => loadDeadline (ofLeBytes buf) now)
  rwa [value] at decoded

/-- A key that the record loop takes for the name of a data type. -/
def Reserved (key : String) : Prop :=
  toAsciiUppercase key = "STRING" ∨ toAsciiUppercase key = "LIST"

instance : DecidablePred Reserved := fun key =>
  inferInstanceAs (Decidable (toAsciiUppercase key = "STRING" ∨ toAsciiUppercase key = "LIST"))

theorem decodes_expiry {key : String} {ms : ℕ} (shortKey : ShortText key) (free : ¬Reserved key)
    (fits : ms < 2 ^ 64) :
    Decodes (parseRecord clock loaded) (writeString key ++ [0xFC] ++ leBytes 8 ms)
      (some (loaded.insertExpiry key (loadDeadline ms (clock loaded.expiries)))) := by
  rw [List.append_assoc]
  apply decodes_parseRecord shortKey
  intro marker
  unfold parseToken
  split
  next isString => exact absurd (Or.inl isString) free
  next isList => exact absurd (Or.inr isList) free
  next =>
    apply (decodes_readOne unexpectedEof (0xFC : UInt8)).bind
    exact (decodes_readExpiry fits _).bind_pure

/-- The record of a reserved key is refused: the opcode behind the key is neither
a value type nor a length. -/
theorem refuses_expiry {key : String} {ms : ℕ} (shortKey : ShortText key)
    (reserved : Reserved key) :
    Refuses (parseRecord clock loaded) (writeString key ++ [0xFC] ++ leBytes 8 ms) := by
  rw [List.append_assoc]
  apply refuses_parseRecord shortKey
  intro marker
  rcases reserved with isString | isList
  · simp only [parseToken, isString]
    exact (decodes_readOne unexpectedEof (0xFC : UInt8)).bind_refuses (refuses_fail _ _)
  · simp only [parseToken, isList, readLength, bind_assoc]
    apply (decodes_readOne unexpectedEof (0xFC : UInt8)).bind_refuses
    intro rest
    exact ⟨_, rfl⟩

end Records

end Ember.Rdb
