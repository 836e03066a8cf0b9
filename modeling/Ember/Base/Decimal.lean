import Ember.Base.Utf8
import Mathlib.Data.Nat.Basic
import Mathlib.Data.List.Basic
import Mathlib.Tactic.Linarith

/-!
# Decimal numerals of fixed-width integers

Numerals are read the way integer types parse a text: an optional sign, at
least one ASCII digit, nothing else, and a value in the range of the type.
Printing followed by reading is the identity on every value in range.
-/

namespace Ember.Base

/-- The value of a non-empty sequence of ASCII digits. -/
def digitsValue (digits : List Char) : Option ℕ :=
  if digits ≠ [] ∧ digits.all Char.isDigit then some (Nat.ofDigitChars 10 digits 0) else none

/-- Read an unsigned numeral of `width` bits; a plus sign is allowed. -/
def parseUnsigned (width : ℕ) (text : String) : Option ℕ :=
  let digits := match text.toList with
    | '+' :: rest => rest
    | chars => chars
  (digitsValue digits).filter (· < 2 ^ width)

/-- Read a signed numeral of `width + 1` bits; either sign is allowed. -/
def parseSigned (width : ℕ) (text : String) : Option ℤ :=
  let value := match text.toList with
    | '-' :: rest => (digitsValue rest).map fun n : ℕ => -(n : ℤ)
    | '+' :: rest => (digitsValue rest).map Int.ofNat
    | chars => (digitsValue chars).map Int.ofNat
  value.filter fun n => -2 ^ width ≤ n ∧ n < 2 ^ width

private theorem all_isDigit_toDigits (n : ℕ) : (Nat.toDigits 10 n).all Char.isDigit := by
  rw [List.all_eq_true]
  intro c member
  exact Nat.isDigit_of_mem_toDigits (by decide) (by decide) member

@[simp]
theorem digitsValue_toDigits (n : ℕ) : digitsValue (Nat.toDigits 10 n) = some n := by
  rw [digitsValue, if_pos ⟨Nat.toDigits_ne_nil, all_isDigit_toDigits n⟩,
    Nat.ofDigitChars_ten_toDigits]

/-- A printed number starts with a digit, so with no sign. -/
theorem toDigits_ne_cons_of_not_isDigit {c : Char} (sign : c.isDigit = false) (n : ℕ)
    (rest : List Char) : Nat.toDigits 10 n ≠ c :: rest := by
  intro equal
  have digit : c.isDigit :=
    Nat.isDigit_of_mem_toDigits (by decide) (by decide)
      (equal ▸ List.mem_cons_self : c ∈ Nat.toDigits 10 n)
  simp [sign] at digit

/-- Reading back a printed unsigned number. -/
theorem parseUnsigned_toString {width n : ℕ} (small : n < 2 ^ width) :
    parseUnsigned width (toString n) = some n := by
  have noSign := toDigits_ne_cons_of_not_isDigit (c := '+') (by decide) n
  rw [Nat.toString_eq_repr, parseUnsigned, Nat.toList_repr]
  split
  · next rest equal => exact absurd equal (noSign rest)
  · simp [small]

/-- Reading back a printed signed number. -/
theorem parseSigned_toString {width : ℕ} {n : ℤ} (lower : -2 ^ width ≤ n) (upper : n < 2 ^ width) :
    parseSigned width (toString n) = some n := by
  rw [Int.toString_eq_repr, parseSigned]
  cases n with
  | ofNat n =>
      have noMinus := toDigits_ne_cons_of_not_isDigit (c := '-') (by decide) n
      have noPlus := toDigits_ne_cons_of_not_isDigit (c := '+') (by decide) n
      rw [show (Int.ofNat n).repr = n.repr from rfl, Nat.toList_repr]
      split
      · next rest equal => exact absurd equal (noMinus rest)
      · next rest equal => exact absurd equal (noPlus rest)
      · simp only [digitsValue_toDigits, Option.map_some]
        rw [Option.filter_some, if_pos (by simpa using ⟨lower, upper⟩)]
  | negSucc n =>
      have shape : (Int.negSucc n).repr.toList = '-' :: Nat.toDigits 10 (n + 1) := by
        rw [show (Int.negSucc n).repr = "-" ++ (n + 1).repr from rfl, String.toList_append,
          Nat.toList_repr]
        rfl
      rw [shape]
      simp only [digitsValue_toDigits, Option.map_some]
      rw [show (-((n + 1 : ℕ) : ℤ)) = Int.negSucc n from rfl, Option.filter_some,
        if_pos (by simpa using ⟨lower, upper⟩)]

/-- An accepted unsigned numeral is in range. -/
theorem parseUnsigned_lt {width n : ℕ} {text : String}
    (parsed : parseUnsigned width text = some n) : n < 2 ^ width := by
  have := (Option.filter_eq_some_iff.mp parsed).2
  simpa using this

/-- An accepted signed numeral is in range. -/
theorem parseSigned_range {width : ℕ} {i : ℤ} {text : String}
    (parsed : parseSigned width text = some i) : -2 ^ width ≤ i ∧ i < 2 ^ width :=
  of_decide_eq_true (Option.filter_eq_some_iff.mp parsed).2

/-! ## The bytes of a printed number -/

private theorem isDigit_bounds {c : Char} (digit : c.isDigit) : 48 ≤ c.val ∧ c.val ≤ 57 := by
  simpa [Char.isDigit, Bool.and_eq_true] using digit

/-- A printed number consists of digits and possibly a minus sign. -/
theorem mem_utf8Bytes_repr {n : ℤ} {b : UInt8} (member : b ∈ utf8Bytes n.repr) :
    b = 45 ∨ (48 ≤ b ∧ b ≤ 57) := by
  have chars : ∀ c ∈ n.repr.toList, c = '-' ∨ c.isDigit := by
    intro c inside
    cases n with
    | ofNat n =>
        rw [show (Int.ofNat n).repr = n.repr from rfl, Nat.toList_repr] at inside
        exact .inr (Nat.isDigit_of_mem_toDigits (by decide) (by decide) inside)
    | negSucc n =>
        rw [show (Int.negSucc n).repr = "-" ++ (n + 1).repr from rfl, String.toList_append,
          Nat.toList_repr] at inside
        rcases List.mem_append.mp inside with sign | digit
        · exact .inl (by simpa using sign)
        · exact .inr (Nat.isDigit_of_mem_toDigits (by decide) (by decide) digit)
  have ascii : ∀ c ∈ n.repr.toList, c.val ≤ 127 := by
    intro c inside
    rcases chars c inside with rfl | digit
    · decide
    · exact UInt32.le_trans (isDigit_bounds digit).2 (by decide)
  rw [utf8Bytes_of_ascii ascii, List.mem_map] at member
  rcases member with ⟨c, inside, rfl⟩
  rcases chars c inside with rfl | digit
  · exact .inl rfl
  · rcases isDigit_bounds digit with ⟨lower, upper⟩
    refine .inr ⟨?_, ?_⟩ <;>
    · simp only [UInt32.le_iff_toNat_le, UInt8.le_iff_toNat_le, UInt32.toNat_toUInt8] at *
      simp at *
      omega

end Ember.Base
