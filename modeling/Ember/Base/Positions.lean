import Mathlib.Data.List.Basic
import Mathlib.Data.Int.Order.Basic

/-!
# Positions in a list

The items between two positions, both included, and the same with indices of which
the negative ones count from the end of the list.
-/

namespace Ember.Base

universe u

variable {α : Type u}

/-- The items at the positions from `first` to `last`. -/
def between (first last : ℕ) (list : List α) : List α :=
  (list.drop first).take (last + 1 - first)

/-- The same when each item is asked for its position. -/
theorem map_filter_zipIdx (first last : ℕ) (list : List α) :
    (list.zipIdx.filter fun (_, idx) => first ≤ idx ∧ idx ≤ last).map Prod.fst =
      between first last list := by
  -- with the number of items in front, which the range loses from the induction on
  suffices general : ∀ front : ℕ,
      ((list.zipIdx front).filter fun (_, idx) => first ≤ idx ∧ idx ≤ last).map Prod.fst =
        (list.drop (first - front)).take (last + 1 - max first front) by
    simpa [between] using general 0
  induction list with
  | nil => simp
  | cons item rest ih =>
      intro front
      rw [List.zipIdx_cons, List.filter_cons]
      by_cases before : front < first
      · have outside : ¬(first ≤ front ∧ front ≤ last) := by omega
        have skipped : first - front = first - (front + 1) + 1 := by omega
        have count : last + 1 - max first front = last + 1 - max first (front + 1) := by omega
        rw [if_neg (mt of_decide_eq_true outside), ih, skipped, List.drop_succ_cons, count]
      · by_cases behind : last < front
        · have outside : ¬(first ≤ front ∧ front ≤ last) := by omega
          have past : last + 1 - max first front = 0 := by omega
          have past' : last + 1 - max first (front + 1) = 0 := by omega
          rw [if_neg (mt of_decide_eq_true outside), ih, past, past', List.take_zero,
            List.take_zero]
        · have inside : first ≤ front ∧ front ≤ last := by omega
          have here : first - front = 0 := by omega
          have passed : first - (front + 1) = 0 := by omega
          have count : last + 1 - max first front = last + 1 - max first (front + 1) + 1 := by
            omega
          rw [if_pos (decide_eq_true inside), List.map_cons, ih, here, passed, count,
            List.drop_zero, List.drop_zero, List.take_succ_cons]

theorem between_eq_nil_iff {first last : ℕ} {list : List α} :
    between first last list = [] ↔ last < first ∨ list.length ≤ first := by
  rw [between, List.take_eq_nil_iff, List.drop_eq_nil_iff]
  omega

/-- Positions behind the end hold nothing. -/
theorem between_eq_of_length_le {first last : ℕ} {list : List α} (behind : list.length ≤ last + 1) :
    between first last list = list.drop first := by
  apply List.take_of_length_le
  rw [List.length_drop]
  omega

/-! ## Signed indices -/

/-- The position that an index means in a list of length `n`; it may still be
outside of the list. -/
def position (n : ℕ) (index : ℤ) : ℤ :=
  if index < 0 then index + n else index

/-- The items from one index to another, both included.  A start before the front is
taken for the front and a stop behind the end for the end; a range that stops before
it starts, or before the front, is empty. -/
def signedRange (start stop : ℤ) (list : List α) : List α :=
  let first := max (position list.length start) 0
  let last := min (position list.length stop) (list.length - 1)
  if last < first ∨ last < 0 then [] else between first.toNat last.toNat list

section SignedRange

variable {start stop : ℤ} {list : List α}

theorem signedRange_of_nonneg (first : 0 ≤ position list.length start)
    (last : 0 ≤ position list.length stop) :
    signedRange start stop list =
      between (position list.length start).toNat (position list.length stop).toNat list := by
  unfold signedRange
  generalize position list.length start = s at first ⊢
  generalize position list.length stop = e at last ⊢
  dsimp only
  rw [max_eq_left first]
  split
  next empty => exact (between_eq_nil_iff.mpr (by omega)).symm
  next =>
    by_cases inside : e < list.length
    · rw [min_eq_left (by omega)]
    · rw [between_eq_of_length_le (by omega), between_eq_of_length_le (by omega)]

theorem signedRange_eq_nil_iff : signedRange start stop list = [] ↔ list.length = 0 ∨
    position list.length stop < 0 ∨ position list.length stop < position list.length start ∨
      list.length ≤ position list.length start := by
  unfold signedRange
  generalize position list.length start = s
  generalize position list.length stop = e
  dsimp only
  split
  next empty => exact iff_of_true rfl (by omega)
  next =>
    rw [between_eq_nil_iff]
    omega

end SignedRange

end Ember.Base
