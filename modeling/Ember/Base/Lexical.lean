import Ember.Base.Decimal
import Mathlib.Data.List.Induction

/-!
# Lexical classes

Numerals and words, described by how they are put together and without a scanner
in mind.  The scanners for fixed-width integers and for words accept exactly
these.
-/

namespace Ember.Base

/-! ## Numerals -/

/-- The ASCII code of a decimal digit. -/
def digitByte (digit : Fin 10) : UInt8 :=
  48 + UInt8.ofNat digit

/-- A non-empty sequence of digits and the number it stands for.  Leading zeros
are allowed. -/
inductive Digits : List UInt8 → ℕ → Prop
  | single (digit : Fin 10) : Digits [digitByte digit] digit
  | snoc {front : List UInt8} {n : ℕ} (digits : Digits front n) (digit : Fin 10) :
      Digits (front ++ [digitByte digit]) (10 * n + digit)

/-- An unsigned numeral of `width` bits. -/
inductive Unsigned (width : ℕ) : List UInt8 → ℕ → Prop
  | plain {bytes : List UInt8} {n : ℕ} (digits : Digits bytes n) (range : n < 2 ^ width) :
      Unsigned width bytes n
  | plus {bytes : List UInt8} {n : ℕ} (digits : Digits bytes n) (range : n < 2 ^ width) :
      Unsigned width (43 :: bytes) n

/-- A signed numeral of `width + 1` bits. -/
inductive Signed (width : ℕ) : List UInt8 → ℤ → Prop
  | plain {bytes : List UInt8} {n : ℕ} (digits : Digits bytes n) (range : n < 2 ^ width) :
      Signed width bytes n
  | plus {bytes : List UInt8} {n : ℕ} (digits : Digits bytes n) (range : n < 2 ^ width) :
      Signed width (43 :: bytes) n
  | minus {bytes : List UInt8} {n : ℕ} (digits : Digits bytes n) (range : n ≤ 2 ^ width) :
      Signed width (45 :: bytes) (-n)

/-! ### Digits as characters -/

/-- A digit as a character. -/
private theorem digitChar_spec :
    ∀ digit : Fin 10, (Nat.digitChar digit).isDigit ∧ (Nat.digitChar digit).val ≤ 127 ∧
      (Nat.digitChar digit).toNat - '0'.toNat = digit ∧
      (Nat.digitChar digit).val.toUInt8 = digitByte digit := by
  decide

/-- The digits among the characters. -/
theorem isDigit_iff {c : Char} : c.isDigit ↔ ∃ digit : Fin 10, c = Nat.digitChar digit := by
  constructor
  · intro isDigit
    have bounds : 48 ≤ c.toNat ∧ c.toNat ≤ 57 := by
      simpa [Char.isDigit, UInt32.le_iff_toNat_le] using isDigit
    have codes : ∀ digit : Fin 10, Char.ofNat (48 + digit) = Nat.digitChar digit := by decide
    have code : 48 + (c.toNat - 48) = c.toNat := by omega
    refine ⟨⟨c.toNat - 48, by omega⟩, ?_⟩
    rw [← codes, code, Char.ofNat_toNat]
  · rintro ⟨digit, rfl⟩
    exact (digitChar_spec digit).1

theorem isWhitespace_of_isDigit {c : Char} (isDigit : c.isDigit) : isWhitespace c = false := by
  rcases isDigit_iff.mp isDigit with ⟨digit, rfl⟩
  clear isDigit
  revert digit
  decide

theorem digitsValue_eq_some_iff {chars : List Char} {n : ℕ} :
    digitsValue chars = some n ↔
      chars ≠ [] ∧ (∀ c ∈ chars, c.isDigit) ∧ Nat.ofDigitChars 10 chars 0 = n := by
  rw [digitsValue]
  split
  next both =>
    rw [Option.some.injEq, ← List.all_eq_true]
    exact ⟨fun value => ⟨both.1, both.2, value⟩, fun shape => shape.2.2⟩
  next neither =>
    rw [← List.all_eq_true]
    apply iff_of_false
    · rintro ⟨⟩
    · intro shape
      exact neither ⟨shape.1, shape.2.1⟩

theorem digitsValue_concat {chars : List Char} {n : ℕ} (digits : digitsValue chars = some n)
    (digit : Fin 10) :
    digitsValue (chars ++ [Nat.digitChar digit]) = some (10 * n + digit) := by
  rw [digitsValue_eq_some_iff] at digits ⊢
  rcases digits with ⟨-, digits, rfl⟩
  refine ⟨by simp, ?_, ?_⟩
  · intro c member
    rcases List.mem_append.mp member with front | last
    · exact digits c front
    · rw [List.mem_singleton.mp last]
      exact (digitChar_spec digit).1
  · rw [Nat.ofDigitChars_append, Nat.ofDigitChars_cons, Nat.ofDigitChars_nil,
      (digitChar_spec digit).2.2.1]

theorem digitsValue_ne_cons {c : Char} (sign : c.isDigit = false) {rest : List Char} {n : ℕ} :
    digitsValue (c :: rest) ≠ some n := by
  intro value
  have digit := (digitsValue_eq_some_iff.mp value).2.1 c List.mem_cons_self
  rw [sign] at digit
  cases digit

/-- The bytes of a text of ASCII characters, put together one by one. -/
private theorem utf8Bytes_digits {chars : List Char} (digits : ∀ c ∈ chars, c.isDigit) :
    utf8Bytes (String.ofList chars) = chars.map fun c => c.val.toUInt8 := by
  rw [utf8Bytes_of_ascii, String.toList_ofList]
  intro c member
  rw [String.toList_ofList] at member
  rcases isDigit_iff.mp (digits c member) with ⟨digit, rfl⟩
  exact (digitChar_spec digit).2.1

/-- Digit sequences are the texts that the digit scanner accepts. -/
theorem digits_iff {bytes : List UInt8} {n : ℕ} :
    Digits bytes n ↔
      ∃ chars, digitsValue chars = some n ∧ bytes = utf8Bytes (String.ofList chars) := by
  constructor
  · intro digits
    induction digits with
    | single digit =>
        refine ⟨[Nat.digitChar digit], ?_, ?_⟩
        · revert digit
          decide
        · rw [utf8Bytes_digits (List.forall_mem_singleton.mpr (digitChar_spec digit).1),
            List.map_singleton, (digitChar_spec digit).2.2.2]
    | snoc digits digit ih =>
        rcases ih with ⟨chars, value, rfl⟩
        refine ⟨chars ++ [Nat.digitChar digit], digitsValue_concat value digit, ?_⟩
        have all := (digitsValue_eq_some_iff.mp (digitsValue_concat value digit)).2.1
        rw [utf8Bytes_digits all, utf8Bytes_digits fun c member =>
          all c (List.mem_append_left _ member), List.map_append, List.map_singleton,
          (digitChar_spec digit).2.2.2]
  · rintro ⟨chars, value, rfl⟩
    induction chars using List.reverseRecOn generalizing n with
    | nil => cases value
    | append_singleton front last ih =>
        rcases digitsValue_eq_some_iff.mp value with ⟨-, all, rfl⟩
        rcases isDigit_iff.mp (all last (by simp)) with ⟨digit, rfl⟩
        rw [utf8Bytes_digits all, List.map_append, List.map_singleton,
          (digitChar_spec digit).2.2.2, Nat.ofDigitChars_append, Nat.ofDigitChars_cons,
          Nat.ofDigitChars_nil, (digitChar_spec digit).2.2.1]
        have all_front : ∀ c ∈ front, c.isDigit := fun c member =>
          all c (List.mem_append_left _ member)
        by_cases empty : front = []
        · subst empty
          simpa using Digits.single digit
        · have front_value : digitsValue front = some (Nat.ofDigitChars 10 front 0) :=
            digitsValue_eq_some_iff.mpr ⟨empty, all_front, rfl⟩
          rw [← utf8Bytes_digits all_front]
          exact (ih front_value).snoc digit

/-! ### Signs -/

theorem parseUnsigned_eq_some_iff {width n : ℕ} {text : String} :
    parseUnsigned width text = some n ↔
      (digitsValue text.toList = some n ∨
        ∃ rest, text.toList = '+' :: rest ∧ digitsValue rest = some n) ∧ n < 2 ^ width := by
  unfold parseUnsigned
  split
  next rest signed =>
    simp [Option.filter_eq_some_iff, signed, digitsValue_ne_cons (c := '+') (by decide)]
  next chars unsigned =>
    simp only [Option.filter_eq_some_iff, decide_eq_true_eq, and_congr_left_iff]
    intro range
    exact (or_iff_left fun ⟨rest, signed, _⟩ => unsigned rest signed).symm

private theorem natCast_range {width n : ℕ} :
    (-2 ^ width ≤ (n : ℤ) ∧ (n : ℤ) < 2 ^ width) ↔ n < 2 ^ width := by
  have power : ((2 ^ width : ℕ) : ℤ) = 2 ^ width := by push_cast; rfl
  omega

private theorem neg_natCast_range {width n : ℕ} :
    (-2 ^ width ≤ -(n : ℤ) ∧ -(n : ℤ) < 2 ^ width) ↔ n ≤ 2 ^ width := by
  have power : ((2 ^ width : ℕ) : ℤ) = 2 ^ width := by push_cast; rfl
  have positive : 0 < 2 ^ width := Nat.two_pow_pos width
  omega

theorem parseSigned_eq_some_iff {width : ℕ} {i : ℤ} {text : String} :
    parseSigned width text = some i ↔
      (∃ n : ℕ, (digitsValue text.toList = some n ∨
          ∃ rest, text.toList = '+' :: rest ∧ digitsValue rest = some n) ∧
          i = n ∧ n < 2 ^ width) ∨
        ∃ (rest : List Char) (n : ℕ), text.toList = '-' :: rest ∧ digitsValue rest = some n ∧
          i = -n ∧ n ≤ 2 ^ width := by
  unfold parseSigned
  split
  next rest minus =>
    simp only [Option.filter_eq_some_iff, Option.map_eq_some_iff, decide_eq_true_eq]
    constructor
    · rintro ⟨⟨n, value, rfl⟩, range⟩
      exact Or.inr ⟨rest, n, minus, value, rfl, neg_natCast_range.mp range⟩
    · rintro (⟨n, value | ⟨rest', plus, -⟩, -⟩ | ⟨rest', n, minus', value, rfl, range⟩)
      · exact absurd (minus ▸ value) (digitsValue_ne_cons (by decide))
      · cases minus.symm.trans plus
      · cases minus.symm.trans minus'
        exact ⟨⟨n, value, rfl⟩, neg_natCast_range.mpr range⟩
  next rest plus =>
    simp only [Option.filter_eq_some_iff, Option.map_eq_some_iff, decide_eq_true_eq]
    constructor
    · rintro ⟨⟨n, value, rfl⟩, range⟩
      exact Or.inl ⟨n, Or.inr ⟨rest, plus, value⟩, rfl, natCast_range.mp range⟩
    · rintro (⟨n, value | ⟨rest', plus', value⟩, rfl, range⟩ | ⟨rest', n, minus, -⟩)
      · exact absurd (plus ▸ value) (digitsValue_ne_cons (by decide))
      · cases plus.symm.trans plus'
        exact ⟨⟨n, value, rfl⟩, natCast_range.mpr range⟩
      · cases plus.symm.trans minus
  next chars noMinus noPlus =>
    simp only [Option.filter_eq_some_iff, Option.map_eq_some_iff, decide_eq_true_eq]
    constructor
    · rintro ⟨⟨n, value, rfl⟩, range⟩
      exact Or.inl ⟨n, Or.inl value, rfl, natCast_range.mp range⟩
    · rintro (⟨n, value | ⟨rest, plus, -⟩, rfl, range⟩ | ⟨rest, n, minus, -⟩)
      · exact ⟨⟨n, value, rfl⟩, natCast_range.mpr range⟩
      · exact absurd plus (noPlus rest)
      · exact absurd minus (noMinus rest)

/-- A signed numeral has no white space. -/
theorem isWhitespace_of_parseSigned {width : ℕ} {i : ℤ} {text : String}
    (parsed : parseSigned width text = some i) : ∀ c ∈ text.toList, isWhitespace c = false := by
  have digits : ∀ {chars : List Char} {n : ℕ}, digitsValue chars = some n →
      ∀ c ∈ chars, isWhitespace c = false := by
    intro chars n value c member
    exact isWhitespace_of_isDigit ((digitsValue_eq_some_iff.mp value).2.1 c member)
  rcases parseSigned_eq_some_iff.mp parsed with
    ⟨n, value | ⟨rest, signed, value⟩, -⟩ | ⟨rest, n, signed, value, -⟩
  · exact digits value
  · rw [signed]
    exact List.forall_mem_cons.mpr ⟨rfl, digits value⟩
  · rw [signed]
    exact List.forall_mem_cons.mpr ⟨rfl, digits value⟩

private theorem utf8Bytes_sign {c : Char} {b : UInt8} (single : String.utf8EncodeChar c = [b])
    (rest : List Char) :
    utf8Bytes (String.ofList (c :: rest)) = b :: utf8Bytes (String.ofList rest) := by
  rw [utf8Bytes_ofList, utf8Bytes_ofList, List.flatMap_cons, single]
  rfl

/-- Unsigned numerals are the texts that the unsigned scanner accepts. -/
theorem unsigned_iff {width n : ℕ} {bytes : List UInt8} :
    Unsigned width bytes n ↔
      ∃ text, bytes = utf8Bytes text ∧ parseUnsigned width text = some n := by
  constructor
  · rintro (⟨digits, range⟩ | ⟨digits, range⟩)
    · rcases digits_iff.mp digits with ⟨chars, value, rfl⟩
      refine ⟨String.ofList chars, rfl, parseUnsigned_eq_some_iff.mpr ⟨Or.inl ?_, range⟩⟩
      rwa [String.toList_ofList]
    · rcases digits_iff.mp digits with ⟨chars, value, rfl⟩
      refine ⟨String.ofList ('+' :: chars), (utf8Bytes_sign rfl chars).symm,
        parseUnsigned_eq_some_iff.mpr ⟨Or.inr ⟨chars, ?_, value⟩, range⟩⟩
      exact String.toList_ofList
  · rintro ⟨text, rfl, parsed⟩
    rcases parseUnsigned_eq_some_iff.mp parsed with ⟨value | ⟨rest, signed, value⟩, range⟩
    · refine .plain (digits_iff.mpr ⟨text.toList, value, ?_⟩) range
      rw [String.ofList_toList]
    · rw [← String.ofList_toList (s := text), signed, utf8Bytes_sign rfl rest]
      exact .plus (digits_iff.mpr ⟨rest, value, rfl⟩) range

/-- Signed numerals are the texts that the signed scanner accepts. -/
theorem signed_iff {width : ℕ} {i : ℤ} {bytes : List UInt8} :
    Signed width bytes i ↔
      ∃ text, bytes = utf8Bytes text ∧ parseSigned width text = some i := by
  constructor
  · rintro (⟨digits, range⟩ | ⟨digits, range⟩ | ⟨digits, range⟩)
    · rcases digits_iff.mp digits with ⟨chars, value, rfl⟩
      refine ⟨String.ofList chars, rfl, parseSigned_eq_some_iff.mpr (Or.inl
        ⟨_, Or.inl ?_, rfl, range⟩)⟩
      rwa [String.toList_ofList]
    · rcases digits_iff.mp digits with ⟨chars, value, rfl⟩
      exact ⟨String.ofList ('+' :: chars), (utf8Bytes_sign rfl chars).symm,
        parseSigned_eq_some_iff.mpr (Or.inl
          ⟨_, Or.inr ⟨chars, String.toList_ofList, value⟩, rfl, range⟩)⟩
    · rcases digits_iff.mp digits with ⟨chars, value, rfl⟩
      exact ⟨String.ofList ('-' :: chars), (utf8Bytes_sign rfl chars).symm,
        parseSigned_eq_some_iff.mpr (Or.inr
          ⟨chars, _, String.toList_ofList, value, rfl, range⟩)⟩
  · rintro ⟨text, rfl, parsed⟩
    rcases parseSigned_eq_some_iff.mp parsed with
      ⟨n, value | ⟨rest, signed, value⟩, rfl, range⟩ | ⟨rest, n, signed, value, rfl, range⟩
    · refine .plain (digits_iff.mpr ⟨text.toList, value, ?_⟩) range
      rw [String.ofList_toList]
    · rw [← String.ofList_toList (s := text), signed, utf8Bytes_sign rfl rest]
      exact .plus (digits_iff.mpr ⟨rest, value, rfl⟩) range
    · rw [← String.ofList_toList (s := text), signed, utf8Bytes_sign rfl rest]
      exact .minus (digits_iff.mpr ⟨rest, value, rfl⟩) range

/-! ## Words -/

/-- The words of a line: maximal non-empty runs of characters other than white
space, in order. -/
inductive Words : List Char → List String → Prop
  | nil : Words [] []
  | space {c : Char} {rest : List Char} {words : List String} (space : isWhitespace c = true)
      (tail : Words rest words) : Words (c :: rest) words
  | word {word rest : List Char} {words : List String} (nonempty : word ≠ [])
      (visible : ∀ c ∈ word, isWhitespace c = false)
      (ends : ∀ c ∈ rest.head?, isWhitespace c = true) (tail : Words rest words) :
      Words (word ++ rest) (String.ofList word :: words)

/-- Every line has words. -/
theorem exists_words (chars : List Char) : ∃ words, Words chars words := by
  induction size : chars.length using Nat.strong_induction_on generalizing chars with
  | h size ih =>
      subst size
      cases chars with
      | nil => exact ⟨[], .nil⟩
      | cons c rest =>
          by_cases space : isWhitespace c = true
          · rcases ih rest.length (Nat.lt_succ_self _) rest rfl with ⟨words, tail⟩
            exact ⟨words, tail.space space⟩
          · -- the run that starts here, and what is behind it
            have parts :=
              List.takeWhile_append_dropWhile (p := fun d => !isWhitespace d) (l := rest)
            have run : ∀ d ∈ rest.takeWhile fun d => !isWhitespace d, isWhitespace d = false := by
              intro d member
              simpa using List.all_eq_true.mp List.all_takeWhile d member
            have stop := List.head?_dropWhile_not (fun d => !isWhitespace d) rest
            generalize rest.takeWhile (fun d => !isWhitespace d) = front at parts run
            generalize rest.dropWhile (fun d => !isWhitespace d) = behind at parts stop
            subst parts
            have shorter : behind.length < (c :: (front ++ behind)).length :=
              Nat.lt_succ_of_le (List.suffix_append front behind).length_le
            rcases ih behind.length shorter behind rfl with ⟨words, tail⟩
            refine ⟨_, .word (List.cons_ne_nil c front) ?_ ?_ tail⟩
            · exact List.forall_mem_cons.mpr ⟨by simpa using space, run⟩
            · intro d head
              rw [Option.mem_def.mp head] at stop
              simpa using stop

theorem filter_splitOnP_eq_of_words {chars : List Char} {words : List String}
    (split : Words chars words) :
    ((chars.splitOnP isWhitespace).filter (· ≠ [])).map String.ofList = words := by
  induction split with
  | nil => rfl
  | space space tail ih => simpa [List.splitOnP_cons_eq_if_modifyHead, space] using ih
  | @word word rest words nonempty visible ends tail ih =>
      cases rest with
      | nil =>
          rw [List.append_nil, List.splitOnP_eq_singleton visible]
          simpa [nonempty] using ih
      | cons c rest =>
          have space : isWhitespace c = true := ends c rfl
          rw [List.splitOnP_append_cons_of_forall_mem visible c space]
          simpa [List.splitOnP_cons_eq_if_modifyHead, space, nonempty] using ih

/-- The words of a line are those that splitting it finds. -/
theorem words_iff {line : String} {words : List String} :
    Words line.toList words ↔ splitWhitespace line = words := by
  constructor
  · exact filter_splitOnP_eq_of_words
  · rintro rfl
    rcases exists_words line.toList with ⟨words, split⟩
    rwa [splitWhitespace, filter_splitOnP_eq_of_words split]

end Ember.Base
