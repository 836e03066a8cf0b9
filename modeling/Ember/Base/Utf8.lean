import Mathlib.Data.List.Basic
import Mathlib.Data.Char

/-!
# UTF-8 text

A `String` is a byte sequence together with a proof that it is valid UTF-8, so
the conversions between texts and bytes are those of the string type itself.
Besides the strict decoder there is the lossy one, which puts U+FFFD in the
place of every maximal ill-formed subsequence.
-/

namespace Ember.Base

/-- The bytes of a text. -/
def utf8Bytes (text : String) : List UInt8 :=
  text.toByteArray.data.toList

/-- Strict decoding: ill-formed input is rejected. -/
def fromUtf8 (bytes : List UInt8) : Option String :=
  String.fromUTF8? ⟨bytes.toArray⟩

@[simp]
theorem utf8Bytes_append (left right : String) :
    utf8Bytes (left ++ right) = utf8Bytes left ++ utf8Bytes right := by
  simp [utf8Bytes]

@[simp]
theorem utf8Bytes_empty : utf8Bytes "" = [] :=
  rfl

@[simp]
theorem fromUtf8_utf8Bytes (text : String) : fromUtf8 (utf8Bytes text) = some text := by
  have bytes_eq : (⟨(utf8Bytes text).toArray⟩ : ByteArray) = text.toByteArray := by
    simp [utf8Bytes]
  rw [fromUtf8, bytes_eq, String.fromUTF8?, dif_pos text.isValidUTF8]
  rfl

theorem utf8Bytes_injective {text text' : String} (same : utf8Bytes text = utf8Bytes text') :
    text = text' := by
  have decoded := fromUtf8_utf8Bytes text
  rw [same, fromUtf8_utf8Bytes] at decoded
  exact (Option.some.inj decoded).symm

/-- Strict decoding accepts exactly the bytes of a text. -/
theorem fromUtf8_eq_some_iff {bytes : List UInt8} {text : String} :
    fromUtf8 bytes = some text ↔ bytes = utf8Bytes text := by
  constructor
  · intro decoded
    rw [fromUtf8, String.fromUTF8?] at decoded
    split at decoded
    · cases decoded
      simp [utf8Bytes, String.fromUTF8]
    · cases decoded
  · rintro rfl
    exact fromUtf8_utf8Bytes text

/-- The bytes of a text given by its characters. -/
theorem utf8Bytes_ofList (chars : List Char) :
    utf8Bytes (String.ofList chars) = chars.flatMap String.utf8EncodeChar := by
  simp [utf8Bytes, List.utf8Encode]

/-- An ASCII text has one byte for every character. -/
theorem utf8Bytes_of_ascii {text : String} (ascii : ∀ c ∈ text.toList, c.val ≤ 127) :
    utf8Bytes text = text.toList.map fun c => c.val.toUInt8 := by
  rw [← String.ofList_toList (s := text), utf8Bytes_ofList, String.toList_ofList]
  generalize text.toList = chars at ascii
  induction chars with
  | nil => rfl
  | cons c chars ih =>
      have single := String.utf8EncodeChar_eq_singleton
        (Char.utf8Size_eq_one_iff.mpr (ascii c List.mem_cons_self))
      rw [List.flatMap_cons, single, List.map_cons,
        ih fun d member => ascii d (List.mem_cons_of_mem c member)]
      rfl

/-- Only the character of its code is encoded with an ASCII byte. -/
theorem eq_of_mem_utf8EncodeChar {c : Char} {b : UInt8} (ascii : b.toNat < 128)
    (member : b ∈ String.utf8EncodeChar c) : c.toNat = b.toNat := by
  have high : ∀ n, 128 ≤ n → n < 256 → b ≠ UInt8.ofNat n := by
    intro n lower upper same
    rw [same, UInt8.toNat_ofNat', Nat.mod_eq_of_lt upper] at ascii
    omega
  unfold String.utf8EncodeChar at member
  dsimp only at member
  split_ifs at member with one two three
  · rw [List.mem_singleton.mp member, UInt8.toNat_ofNat', Nat.mod_eq_of_lt (by omega)]
    rfl
  -- All bytes of longer encodings have their high bit set.
  all_goals
    simp only [List.mem_cons, List.not_mem_nil, or_false] at member
  · rcases member with same | same
    all_goals exact absurd same (high _ (by omega) (by omega))
  · rcases member with same | same | same
    all_goals exact absurd same (high _ (by omega) (by omega))
  · rcases member with same | same | same | same
    all_goals exact absurd same (high _ (by omega) (by omega))

theorem exists_of_mem_utf8Bytes {chars : List Char} {b : UInt8} (ascii : b.toNat < 128)
    (member : b ∈ utf8Bytes (String.ofList chars)) : ∃ c ∈ chars, c.toNat = b.toNat := by
  rw [utf8Bytes_ofList] at member
  rcases List.mem_flatMap.mp member with ⟨c, inside, encoded⟩
  exact ⟨c, inside, eq_of_mem_utf8EncodeChar ascii encoded⟩

/-- An ASCII byte at the front comes from the first character. -/
theorem head_of_head_utf8Bytes {c : Char} {rest : List Char} {suffix : List UInt8} {b : UInt8}
    (ascii : b.toNat < 128)
    (head : b ∈ (utf8Bytes (String.ofList (c :: rest)) ++ suffix).head?) :
    c.toNat = b.toNat := by
  have encoded : String.utf8EncodeChar c ≠ [] := by
    apply List.ne_nil_of_length_pos
    rw [String.length_utf8EncodeChar]
    exact c.utf8Size_pos
  rw [utf8Bytes_ofList, List.flatMap_cons, List.append_assoc,
    List.head?_append_of_ne_nil _ encoded] at head
  exact eq_of_mem_utf8EncodeChar ascii (List.mem_of_mem_head? head)

/-! ## Lossy decoding -/

/-- Is `b` a continuation byte, `10xxxxxx`? -/
def isContinuation (b : UInt8) : Bool :=
  0x80 ≤ b && b ≤ 0xBF

/-- The second bytes that may follow the lead byte of a three- or four-byte
sequence: overlong forms, surrogates and code points past U+10FFFF are out. -/
def acceptsSecond (lead second : UInt8) : Bool :=
  if lead = 0xE0 then 0xA0 ≤ second && second ≤ 0xBF
  else if lead = 0xED then 0x80 ≤ second && second ≤ 0x9F
  else if lead = 0xF0 then 0x90 ≤ second && second ≤ 0xBF
  else if lead = 0xF4 then 0x80 ≤ second && second ≤ 0x8F
  else isContinuation second

/-- The length of the maximal ill-formed subsequence at the front of a sequence
that starts with no well-formed character: the longest front part that could
have been continued, and at least one byte. -/
def illFormedLength : List UInt8 → ℕ
  | [] => 0
  | lead :: rest =>
      if 0xE0 ≤ lead && lead ≤ 0xEF then
        match rest with
        | second :: _ => if acceptsSecond lead second then 2 else 1
        | [] => 1
      else if 0xF0 ≤ lead && lead ≤ 0xF4 then
        match rest with
        | second :: third :: _ =>
            if acceptsSecond lead second then
              if isContinuation third then 3 else 2
            else 1
        | [second] => if acceptsSecond lead second then 2 else 1
        | [] => 1
      else 1

/-- The characters of a byte sequence, ill-formed parts replaced by U+FFFD.
Every character takes at least one byte, so the length is enough fuel. -/
def lossyChars : ℕ → List UInt8 → List Char
  | 0, _ => []
  | _, [] => []
  | fuel + 1, bytes =>
      match ByteArray.utf8DecodeChar? ⟨bytes.toArray⟩ 0 with
      | some c => c :: lossyChars fuel (bytes.drop c.utf8Size)
      | none => '\ufffd' :: lossyChars fuel (bytes.drop (illFormedLength bytes))

/-- Lossy decoding: never fails. -/
def fromUtf8Lossy (bytes : List UInt8) : String :=
  String.ofList (lossyChars bytes.length bytes)

private theorem lossyChars_encode (chars : List Char) {fuel : ℕ}
    (enough : (chars.flatMap String.utf8EncodeChar).length ≤ fuel) :
    lossyChars fuel (chars.flatMap String.utf8EncodeChar) = chars := by
  induction chars generalizing fuel with
  | nil => cases fuel <;> rfl
  | cons c chars ih =>
      have size : (String.utf8EncodeChar c).length = c.utf8Size := String.length_utf8EncodeChar c
      have pos := c.utf8Size_pos
      rw [List.flatMap_cons, List.length_append, size] at enough
      cases fuel with
      | zero => omega
      | succ fuel =>
          have decoded : ByteArray.utf8DecodeChar?
              ⟨(String.utf8EncodeChar c ++ chars.flatMap String.utf8EncodeChar).toArray⟩ 0 =
                some c := by
            have first := List.utf8DecodeChar?_utf8Encode_cons (c := c) (l := chars)
            have encode_eq : (c :: chars).utf8Encode =
                ⟨(String.utf8EncodeChar c ++
                  chars.flatMap String.utf8EncodeChar).toArray⟩ := by
              apply ByteArray.ext
              simp [List.utf8Encode]
            rwa [encode_eq] at first
          obtain ⟨first, tail, encoded⟩ :
              ∃ first tail, String.utf8EncodeChar c = first :: tail := by
            cases h : String.utf8EncodeChar c with
            | nil => rw [h] at size; simp at size; omega
            | cons first tail => exact ⟨first, tail, rfl⟩
          rw [List.flatMap_cons]
          have unfolded : lossyChars (fuel + 1)
              (String.utf8EncodeChar c ++ chars.flatMap String.utf8EncodeChar) =
                c :: lossyChars fuel
                  ((String.utf8EncodeChar c ++ chars.flatMap String.utf8EncodeChar).drop
                    c.utf8Size) := by
            rw [encoded] at decoded ⊢
            simp only [List.cons_append] at decoded ⊢
            rw [lossyChars, decoded]
            simp
          rw [unfolded, ← size, List.drop_left, ih (by omega)]

/-- On the bytes of a text nothing is lost. -/
@[simp]
theorem fromUtf8Lossy_utf8Bytes (text : String) : fromUtf8Lossy (utf8Bytes text) = text := by
  have bytes_eq : utf8Bytes text = text.toList.flatMap String.utf8EncodeChar := by
    rw [← utf8Bytes_ofList, String.ofList_toList]
  rw [fromUtf8Lossy, bytes_eq, lossyChars_encode _ le_rfl, String.ofList_toList]

/-! ## Text functions -/

/-- ASCII upper case; other characters are kept. -/
def toAsciiUppercase (text : String) : String :=
  String.ofList (text.toList.map Char.toUpper)

/-- The Unicode `White_Space` characters. -/
def isWhitespace (c : Char) : Bool :=
  ('\t' ≤ c && c ≤ '\r') || c = ' ' || c = '\u0085' || c = '\u00a0' || c = '\u1680' ||
    ('\u2000' ≤ c && c ≤ '\u200a') || c = '\u2028' || c = '\u2029' || c = '\u202f' ||
    c = '\u205f' || c = '\u3000'

/-- The text without white space at either end. -/
def trim (text : String) : String :=
  String.ofList
    ((text.toList.dropWhile isWhitespace).reverse.dropWhile isWhitespace).reverse

theorem trim_eq_self {text : String} (dense : ∀ c ∈ text.toList, isWhitespace c = false) :
    trim text = text := by
  have drop : ∀ chars : List Char, (∀ c ∈ chars, isWhitespace c = false) →
      chars.dropWhile isWhitespace = chars := by
    intro chars dense
    cases chars with
    | nil => rfl
    | cons c rest => exact List.dropWhile_cons_of_neg (by simp [dense c List.mem_cons_self])
  rw [trim, drop _ dense, drop _ fun c member => dense c (List.mem_reverse.mp member),
    List.reverse_reverse, String.ofList_toList]

/-- The maximal non-empty runs of non-white-space characters, in order. -/
def splitWhitespace (text : String) : List String :=
  ((text.toList.splitOnP isWhitespace).filter (· ≠ [])).map String.ofList

end Ember.Base
