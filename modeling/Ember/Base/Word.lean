import Ember.Base.Outcome
import Mathlib.Data.Nat.Basic
import Mathlib.Tactic.NormNum

/-!
# Machine words

Pointer-width arithmetic, slices and allocations on a 64-bit target.  Whether
an overflowing addition panics or wraps around is a property of the build, and
the storage size of a collection's element is chosen by the compiler; both are
fields of `Target`, over which all results quantify.

Byte strings of a fixed width are written least or most significant byte first.
-/

namespace Ember.Base

universe u v

/-- What a build leaves open: checked or wrapping overflow, and the number of
bytes one element of a growable array occupies. -/
structure Target where
  overflowChecks : Bool
  elementSize : ℕ

/-- The number of values of a pointer-width unsigned integer. -/
def usizeModulus : ℕ := 2 ^ 64

/-- The largest number of bytes a single object may take. -/
def isizeMax : ℕ := 2 ^ 63 - 1

namespace Target

variable {ε : Type u} (target : Target)

/-- Addition of pointer-width unsigned integers. -/
def addUsize (a b : ℕ) : Outcome ε ℕ :=
  if a + b < usizeModulus then .ok (a + b)
  else if target.overflowChecks then .panic
  else .ok ((a + b) % usizeModulus)

/-- Reserving room for `count` elements: larger requests than an object can be
are refused by a panic. -/
def withCapacity (count : ℕ) : Outcome ε Unit :=
  if count * target.elementSize ≤ isizeMax then .ok () else .panic

/-- The result of an operation on signed 32-bit integers, given its exact value
and the one that wraps around. -/
def wrapI32 (exact : ℤ) (wrapped : Int32) : Outcome ε Int32 :=
  if -2 ^ 31 ≤ exact ∧ exact < 2 ^ 31 then .ok wrapped
  else if target.overflowChecks then .panic
  else .ok wrapped

/-- Addition of signed 32-bit integers. -/
def addI32 (a b : Int32) : Outcome ε Int32 :=
  target.wrapI32 (a.toInt + b.toInt) (a + b)

/-- Multiplication of signed 32-bit integers. -/
def mulI32 (a b : Int32) : Outcome ε Int32 :=
  target.wrapI32 (a.toInt * b.toInt) (a * b)

/-- Addition of unsigned 16-bit integers. -/
def addU16 (a b : UInt16) : Outcome ε UInt16 :=
  if a.toNat + b.toNat < 2 ^ 16 then .ok (a + b)
  else if target.overflowChecks then .panic
  else .ok (a + b)

theorem addUsize_of_lt {a b : ℕ} (fits : a + b < usizeModulus) :
    target.addUsize a b = (.ok (a + b) : Outcome ε ℕ) :=
  if_pos fits

theorem addUsize_checked {a b : ℕ} (checks : target.overflowChecks = true)
    (overflow : usizeModulus ≤ a + b) : target.addUsize a b = (.panic : Outcome ε ℕ) := by
  rw [addUsize, if_neg (Nat.not_lt_of_le overflow), if_pos checks]

theorem addUsize_wrapping {a b : ℕ} (wraps : target.overflowChecks = false)
    (overflow : usizeModulus ≤ a + b) :
    target.addUsize a b = (.ok ((a + b) % usizeModulus) : Outcome ε ℕ) := by
  rw [addUsize, if_neg (Nat.not_lt_of_le overflow), if_neg (by simp [wraps])]

/-- Arithmetic returns or panics; it never fails. -/
theorem wrapI32_failsWith (P : ε → Prop) (exact : ℤ) (wrapped : Int32) :
    (target.wrapI32 exact wrapped).FailsWith P := by
  unfold wrapI32
  split_ifs
  · exact Outcome.failsWith_ok wrapped
  · exact Outcome.failsWith_panic
  · exact Outcome.failsWith_ok wrapped

theorem mulI32_failsWith (P : ε → Prop) (a b : Int32) : (target.mulI32 a b).FailsWith P :=
  target.wrapI32_failsWith P _ _

theorem wrapI32_eq_panic_iff {exact : ℤ} {wrapped : Int32} :
    target.wrapI32 exact wrapped = (.panic : Outcome ε Int32) ↔
      target.overflowChecks = true ∧ ¬(-2 ^ 31 ≤ exact ∧ exact < 2 ^ 31) := by
  unfold wrapI32
  split_ifs with fits checks
  · exact iff_of_false (by rintro ⟨⟩) fun overflow => overflow.2 fits
  · exact iff_of_true rfl ⟨checks, fits⟩
  · exact iff_of_false (by rintro ⟨⟩) fun overflow => checks overflow.1

theorem mulI32_eq_panic_iff {a b : Int32} :
    target.mulI32 a b = (.panic : Outcome ε Int32) ↔
      target.overflowChecks = true ∧
        ¬(-2 ^ 31 ≤ a.toInt * b.toInt ∧ a.toInt * b.toInt < 2 ^ 31) :=
  target.wrapI32_eq_panic_iff

theorem addI32_exact {a b : Int32}
    (fits : -2 ^ 31 ≤ a.toInt + b.toInt ∧ a.toInt + b.toInt < 2 ^ 31) :
    ∃ c, target.addI32 a b = (.ok c : Outcome ε Int32) ∧ c.toInt = a.toInt + b.toInt := by
  refine ⟨a + b, if_pos fits, ?_⟩
  rw [Int32.toInt_add]
  exact Int.bmod_eq_of_le fits.1 fits.2

/-- A product is exact when it fits, and only then. -/
theorem mulI32_exact_iff {a b : Int32} :
    (∃ c, target.mulI32 a b = (.ok c : Outcome ε Int32) ∧ c.toInt = a.toInt * b.toInt) ↔
      -2 ^ 31 ≤ a.toInt * b.toInt ∧ a.toInt * b.toInt < 2 ^ 31 := by
  constructor
  · rintro ⟨c, -, exact⟩
    rw [← exact]
    exact ⟨Int32.le_toInt c, Int32.toInt_lt c⟩
  · intro fits
    refine ⟨a * b, if_pos fits, ?_⟩
    rw [Int32.toInt_mul]
    exact Int.bmod_eq_of_le fits.1 fits.2

theorem addU16_exact {a b : UInt16} (fits : a.toNat + b.toNat < 2 ^ 16) :
    ∃ c, target.addU16 a b = (.ok c : Outcome ε UInt16) ∧ c.toNat = a.toNat + b.toNat := by
  refine ⟨a + b, if_pos fits, ?_⟩
  rw [UInt16.toNat_add]
  exact Nat.mod_eq_of_lt fits

theorem addU16_checked {a b : UInt16} (checks : target.overflowChecks = true)
    (overflow : 2 ^ 16 ≤ a.toNat + b.toNat) : target.addU16 a b = (.panic : Outcome ε UInt16) := by
  rw [addU16, if_neg (Nat.not_lt_of_le overflow), if_pos checks]

theorem addU16_wrapping {a b : UInt16} (wraps : target.overflowChecks = false)
    (overflow : 2 ^ 16 ≤ a.toNat + b.toNat) :
    target.addU16 a b = (.ok (a + b) : Outcome ε UInt16) := by
  rw [addU16, if_neg (Nat.not_lt_of_le overflow), wraps]
  rfl

theorem withCapacity_of_le {count : ℕ} (fits : count * target.elementSize ≤ isizeMax) :
    target.withCapacity count = (.ok () : Outcome ε Unit) :=
  if_pos fits

end Target

/-- A signed 32-bit integer cast to an unsigned 64-bit one: the sign is extended,
so that negative values become huge. -/
def asU64 (n : Int32) : ℕ :=
  (n.toInt % 2 ^ 64).toNat

theorem asU64_lt (n : Int32) : asU64 n < 2 ^ 64 := by
  unfold asU64
  omega

/-- Negative integers become large: a number in the lower half comes from itself. -/
theorem asU64_eq_iff {n : Int32} {k : ℕ} (small : k < 2 ^ 63) : asU64 n = k ↔ n.toInt = k := by
  have lower := Int32.le_toInt n
  have upper := Int32.toInt_lt n
  unfold asU64
  omega

theorem asU64_of_nonneg {n : Int32} (nonneg : 0 ≤ n.toInt) : asU64 n = n.toInt.toNat := by
  have upper := Int32.toInt_lt n
  unfold asU64
  omega

theorem le_asU64_of_neg {n : Int32} (negative : n.toInt < 0) : 2 ^ 63 ≤ asU64 n := by
  have lower := Int32.le_toInt n
  unfold asU64
  omega

/-- The part of a buffer between two offsets. -/
def slice {ε : Type u} {α : Type v} (buf : List α) (start stop : ℕ) : Outcome ε (List α) :=
  if start ≤ stop ∧ stop ≤ buf.length then .ok ((buf.drop start).take (stop - start)) else .panic

theorem slice_of_le {ε : Type u} {α : Type v} {buf : List α} {start stop : ℕ}
    (ordered : start ≤ stop) (bound : stop ≤ buf.length) :
    slice buf start stop = (.ok ((buf.drop start).take (stop - start)) : Outcome ε (List α)) :=
  if_pos ⟨ordered, bound⟩

theorem slice_of_lt {ε : Type u} {α : Type v} {start stop : ℕ} (disordered : stop < start)
    (buf : List α) : slice buf start stop = (.panic : Outcome ε (List α)) :=
  if_neg fun ordered => Nat.not_le_of_lt disordered ordered.1

theorem slice_to_end {ε : Type u} {α : Type v} {buf : List α} {start : ℕ}
    (bound : start ≤ buf.length) :
    slice buf start buf.length = (.ok (buf.drop start) : Outcome ε (List α)) := by
  rw [slice_of_le bound le_rfl, List.take_of_length_le (by rw [List.length_drop])]

/-! ## Fixed-width byte strings -/

/-- The `width` low bytes of a number, least significant first. -/
def leBytes : ℕ → ℕ → List UInt8
  | 0, _ => []
  | width + 1, n => UInt8.ofNat (n % 256) :: leBytes width (n / 256)

/-- The number whose bytes, least significant first, are given. -/
def ofLeBytes : List UInt8 → ℕ
  | [] => 0
  | b :: rest => b.toNat + 256 * ofLeBytes rest

/-- The `width` low bytes of a number, most significant first. -/
def beBytes (width n : ℕ) : List UInt8 :=
  (leBytes width n).reverse

/-- The number whose bytes, most significant first, are given. -/
def ofBeBytes (bytes : List UInt8) : ℕ :=
  ofLeBytes bytes.reverse

@[simp]
theorem length_leBytes (width n : ℕ) : (leBytes width n).length = width := by
  induction width generalizing n with
  | zero => rfl
  | succ width ih => simp [leBytes, ih]

@[simp]
theorem length_beBytes (width n : ℕ) : (beBytes width n).length = width := by
  simp [beBytes]

/-- A fixed-width byte string holds the number modulo the width. -/
theorem ofLeBytes_leBytes (width n : ℕ) : ofLeBytes (leBytes width n) = n % 256 ^ width := by
  induction width generalizing n with
  | zero => simp [leBytes, ofLeBytes, Nat.mod_one]
  | succ width ih =>
      have low : (UInt8.ofNat (n % 256)).toNat = n % 256 := by
        simp
      rw [leBytes, ofLeBytes, ih, low, Nat.pow_succ', Nat.mod_mul]

theorem ofBeBytes_beBytes (width n : ℕ) : ofBeBytes (beBytes width n) = n % 256 ^ width := by
  rw [ofBeBytes, beBytes, List.reverse_reverse, ofLeBytes_leBytes]

end Ember.Base
