import Ember.Rdb.Reader

/-!
# Lengths and texts of any size

The writer takes lengths of 64 bits, and of those that do not fit one byte it writes
the low 32 bits.  The reader finds every length modulo `2 ^ 32`, and of a text that is
longer only a part.  The rest of the text stays in the file, where the next part of
the snapshot is expected.
-/

namespace Ember.Rdb

open Ember.Base Reader

/-- A text whose length fits the format. -/
def ShortText (s : String) : Prop :=
  (utf8Bytes s).length < 2 ^ 32

instance : DecidablePred ShortText := fun s =>
  inferInstanceAs (Decidable ((utf8Bytes s).length < 2 ^ 32))

/-- The first byte of a length: the reader takes it for nothing else. -/
def LengthByte (first : UInt8) : Prop :=
  first < 64 ∨ first = 0x80

/-- The first bytes that the record loop takes for opcodes. -/
def opcodes : List UInt8 :=
  [0xFE, 0xFC, 0xFF]

theorem LengthByte.not_opcode {first : UInt8} (start : LengthByte first) :
    first ≠ 0xFE ∧ first ≠ 0xFC ∧ first ≠ 0xFF := by
  rcases start with small | rfl
  · refine ⟨?_, ?_, ?_⟩ <;>
    · rintro rfl
      exact absurd small (by decide)
  · decide

theorem LengthByte.notMem_opcodes {first : UInt8} (start : LengthByte first) :
    first ∉ opcodes := by
  rcases start.not_opcode with ⟨notFE, notFC, notFF⟩
  simp [opcodes, notFE, notFC, notFF]

/-! ## Lengths -/

/-- A length is read modulo the width of the wider encoding, whatever its size. -/
theorem writeLength_cases (len : ℕ) :
    ∃ first tail, writeLength len = first :: tail ∧ LengthByte first ∧
      Decodes (readLengthWithFirst first) tail (len % 2 ^ 32) := by
  by_cases small : len < 64
  · have toNat : (UInt8.ofNat len).toNat = len := UInt8.toNat_ofNat_of_lt' (small.trans (by decide))
    have below : UInt8.ofNat len < 64 := by
      rw [UInt8.lt_iff_toNat_lt, toNat]
      exact small
    refine ⟨_, _, if_pos small, Or.inl below, ?_⟩
    rw [readLengthWithFirst, if_pos below, toNat, Nat.mod_eq_of_lt (small.trans (by decide))]
    exact decodes_pure len
  · refine ⟨_, _, if_neg small, Or.inr rfl, ?_⟩
    have four := decodes_readExact unexpectedEof (beBytes 4 len)
    rw [length_beBytes] at four
    have decoded := four.bind_pure (f := ofBeBytes)
    rwa [ofBeBytes_beBytes] at decoded

theorem decodes_readLength_mod (len : ℕ) :
    Decodes readLength (writeLength len) (len % 2 ^ 32) := by
  rcases writeLength_cases len with ⟨first, tail, bytes, -, decoded⟩
  rw [bytes]
  exact (decodes_readOne unexpectedEof first).bind decoded

theorem decodes_readLength {len : ℕ} (fits : len < 2 ^ 32) :
    Decodes readLength (writeLength len) len := by
  have decoded := decodes_readLength_mod len
  rwa [Nat.mod_eq_of_lt fits] at decoded

theorem readLength_writeLength_iff {len : ℕ} {suffix : List UInt8} :
    readLength (writeLength len ++ suffix) = .ok (len, suffix) ↔ len < 2 ^ 32 := by
  rw [decodes_readLength_mod len suffix, Outcome.ok.injEq, Prod.mk.injEq, and_iff_left rfl]
  exact Nat.mod_eq_iff_lt (by decide)

/-! ## Texts -/

/-- The number of bytes that are read for a text. -/
def readSize (s : String) : ℕ :=
  (utf8Bytes s).length % 2 ^ 32

theorem readSize_le (s : String) : readSize s ≤ (utf8Bytes s).length :=
  Nat.mod_le _ _

theorem readSize_eq_iff {s : String} : readSize s = (utf8Bytes s).length ↔ ShortText s :=
  Nat.mod_eq_iff_lt (by decide)

section

variable {length : FileReader ℕ} {front : List UInt8} {s : String}

/-- A text behind its length.  The bytes that the length does not count are left. -/
theorem read_text (counted : Decodes length front (readSize s)) (suffix : List UInt8) :
    (do let len ← length
        let buf ← Reader.readExact unexpectedEof len
        return fromUtf8Lossy buf : FileReader String) (front ++ utf8Bytes s ++ suffix) =
      .ok (fromUtf8Lossy ((utf8Bytes s).take (readSize s)),
        (utf8Bytes s).drop (readSize s) ++ suffix) := by
  have part := readExact_append (readSize_le s) unexpectedEof suffix
  rw [List.append_assoc, bind_apply, counted, Outcome.ok_bind, bind_apply]
  dsimp only
  rw [part]
  rfl

theorem read_text_iff (counted : Decodes length front (readSize s)) (suffix : List UInt8) :
    (do let len ← length
        let buf ← Reader.readExact unexpectedEof len
        return fromUtf8Lossy buf : FileReader String) (front ++ utf8Bytes s ++ suffix) =
      .ok (s, suffix) ↔ ShortText s := by
  rw [read_text counted, Outcome.ok.injEq, Prod.mk.injEq, ← readSize_eq_iff]
  constructor
  · rintro ⟨-, left⟩
    have nothing : (utf8Bytes s).drop (readSize s) = [] := List.append_left_eq_self.mp left
    exact Nat.le_antisymm (readSize_le s) (List.drop_eq_nil_iff.mp nothing)
  · intro whole
    rw [whole, List.take_length, List.drop_length, fromUtf8Lossy_utf8Bytes]
    exact ⟨rfl, rfl⟩

end

/-- The text that is read back, and what is left. -/
theorem readString_writeString (s : String) (suffix : List UInt8) :
    readString (writeString s ++ suffix) =
      .ok (fromUtf8Lossy ((utf8Bytes s).take (readSize s)),
        (utf8Bytes s).drop (readSize s) ++ suffix) :=
  read_text (decodes_readLength_mod _) suffix

theorem readString_writeString_iff {s : String} {suffix : List UInt8} :
    readString (writeString s ++ suffix) = .ok (s, suffix) ↔ ShortText s :=
  read_text_iff (decodes_readLength_mod _) suffix

theorem decodes_readString {s : String} (short : ShortText s) :
    Decodes readString (writeString s) s :=
  fun _ => readString_writeString_iff.mpr short

/-- A text may also be read after its first byte was taken for a marker. -/
theorem writeString_cases (s : String) :
    ∃ first tail, writeString s = first :: tail ∧ LengthByte first ∧
      ∀ suffix, readStringWithFirstLen first (tail ++ suffix) = .ok (s, suffix) ↔
        ShortText s := by
  rcases writeLength_cases (utf8Bytes s).length with ⟨first, tail, bytes, start, counted⟩
  refine ⟨first, tail ++ utf8Bytes s, ?_, start, read_text_iff counted⟩
  rw [writeString, bytes, List.cons_append]

theorem writeString_eq {s : String} (short : ShortText s) :
    ∃ first tail, writeString s = first :: tail ∧ LengthByte first ∧
      Decodes (readStringWithFirstLen first) tail s := by
  rcases writeString_cases s with ⟨first, tail, bytes, start, marked⟩
  exact ⟨first, tail, bytes, start, fun suffix => (marked suffix).mpr short⟩

/-! ## What is read back -/

/-- Lengths and texts are read back, whatever comes behind them, exactly when they are
below `2 ^ 32`.  What begins with a length is never taken for an opcode. -/
theorem read_write_iff (len : UInt64) (str : String) (suffix : List UInt8) :
    (∃ first tail, writeLength len.toNat = first :: tail ∧ first ∉ opcodes) ∧
    (readLength (writeLength len.toNat ++ suffix) = .ok (len.toNat, suffix) ↔
      len.toNat < 2 ^ 32) ∧
    (readString (writeString str ++ suffix) = .ok (str, suffix) ↔
      (utf8Bytes str).length < 2 ^ 32) ∧
    ∃ first tail, writeString str = first :: tail ∧ first ∉ opcodes ∧
      (readStringWithFirstLen first (tail ++ suffix) = .ok (str, suffix) ↔
        (utf8Bytes str).length < 2 ^ 32) := by
  rcases writeLength_cases len.toNat with ⟨first, tail, bytes, start, -⟩
  rcases writeString_cases str with ⟨marker, text, bytes', start', marked⟩
  constructor
  · exact ⟨first, tail, bytes, start.notMem_opcodes⟩
  constructor
  · exact readLength_writeLength_iff
  constructor
  · exact readString_writeString_iff
  · exact ⟨marker, text, bytes', start'.notMem_opcodes, marked suffix⟩

/-- A text of as many bytes as one likes. -/
def letters (n : ℕ) : String :=
  String.ofList (List.replicate n 'a')

theorem length_utf8Bytes_letters (n : ℕ) : (utf8Bytes (letters n)).length = n := by
  have ascii : ∀ c ∈ (letters n).toList, c.val ≤ 127 := by
    intro c member
    rw [letters, String.toList_ofList] at member
    rw [List.eq_of_mem_replicate member]
    decide
  rw [utf8Bytes_of_ascii ascii, List.length_map, letters, String.toList_ofList,
    List.length_replicate]

/-- Of a text whose length is a multiple of `2 ^ 32` nothing is read. -/
theorem readString_letters (n : ℕ) (suffix : List UInt8) :
    readString (writeString (letters (2 ^ 32 * n)) ++ suffix) =
      .ok ("", utf8Bytes (letters (2 ^ 32 * n)) ++ suffix) := by
  have nothing : readSize (letters (2 ^ 32 * n)) = 0 := by
    rw [readSize, length_utf8Bytes_letters, Nat.mul_mod_right]
  rw [readString_writeString, nothing, List.take_zero, List.drop_zero]
  rfl

/-- A length of `2 ^ 32` is read as zero.  A text of that length is read as the empty one,
and all its bytes are left for what comes next. -/
theorem read_write_wraps :
    readLength (writeLength (4294967296 : UInt64).toNat ++ [0xFF]) = .ok (0, [0xFF]) ∧
      readString (writeString (letters 4294967296) ++ [0xFF]) =
        .ok ("", utf8Bytes (letters 4294967296) ++ [0xFF]) := by
  constructor
  · decide +kernel
  · exact readString_letters 1 [0xFF]

end Ember.Rdb
