import Ember.Base.Outcome
import Mathlib.Data.List.Basic
import Mathlib.Order.Lattice
import Mathlib.Tactic.Push

/-!
# Self-delimiting frame parsers

A frame parser looks at a buffer and either returns a value with the number of
symbols it occupies, asks for more input, or gives up.  It is self-delimiting
when its verdict depends only on the symbols of the frame it reports: once the
verdict is not `more`, further input cannot change it.

For such a parser the sequence of frames read from a stream does not depend on
the pieces in which the stream arrives (`unframe_append`).
-/

namespace Ember.Base.Framing

universe u v w

variable {β : Type u} {ε : Type v} {α : Type w}

/-- The parser `parse`, which asks for more input by the error `more`, decides
every frame from the symbols of that frame alone. -/
structure SelfDelimiting (more : ε) (parse : List β → Outcome ε (α × ℕ)) : Prop where
  consumed_pos : ∀ {buf value n}, parse buf = .ok (value, n) → 0 < n
  consumed_le : ∀ {buf value n}, parse buf = .ok (value, n) → n ≤ buf.length
  take_consumed : ∀ {buf value n},
    parse buf = .ok (value, n) → parse (buf.take n) = .ok (value, n)
  stable : ∀ {buf} (suffix : List β),
    parse buf ≠ .error more → parse (buf ++ suffix) = parse buf

namespace SelfDelimiting

variable {more : ε} {parse : List β → Outcome ε (α × ℕ)}

/-- An accepted frame is accepted again with anything else behind it. -/
theorem take_append (delimited : SelfDelimiting more parse) {buf : List β} {value : α} {n : ℕ}
    (accepted : parse buf = .ok (value, n)) (suffix : List β) :
    parse (buf.take n ++ suffix) = .ok (value, n) := by
  have cut := delimited.take_consumed accepted
  rw [delimited.stable suffix (by simp [cut]), cut]

/-- A buffer cut anywhere behind a frame still holds that frame. -/
theorem take_of_le (delimited : SelfDelimiting more parse) {buf : List β} {value : α} {n m : ℕ}
    (accepted : parse buf = .ok (value, n)) (behind : n ≤ m) :
    parse (buf.take m) = .ok (value, n) := by
  have split : buf.take m = buf.take n ++ (buf.take m).drop n := by
    conv_lhs => rw [← List.take_append_drop n (buf.take m)]
    rw [List.take_take, Nat.min_eq_left behind]
  rw [split]
  exact delimited.take_append accepted _

/-- Every proper part of a frame asks for more input. -/
theorem more_of_prefix (delimited : SelfDelimiting more parse) {buf : List β} {value : α}
    {n k : ℕ} (accepted : parse buf = .ok (value, n)) (short : k < n) :
    parse (buf.take k) = .error more := by
  by_contra decided
  have whole : buf.take n = buf.take k ++ (buf.take n).drop k := by
    conv_lhs => rw [← List.take_append_drop k (buf.take n)]
    rw [List.take_take, Nat.min_eq_left (Nat.le_of_lt short)]
  have same : parse (buf.take k) = .ok (value, n) := by
    rw [← delimited.stable _ decided, ← whole]
    exact delimited.take_consumed accepted
  have bound := delimited.consumed_le same
  rw [List.length_take] at bound
  omega

theorem nil (delimited : SelfDelimiting more parse) {value : α} {n : ℕ} :
    parse [] ≠ .ok (value, n) := by
  intro accepted
  have pos := delimited.consumed_pos accepted
  have bound := delimited.consumed_le accepted
  simp at bound
  omega

end SelfDelimiting

/-- Giving up at once is self-delimiting. -/
theorem selfDelimiting_error (more reason : ε) :
    SelfDelimiting more fun _ : List β => (.error reason : Outcome ε (α × ℕ)) where
  consumed_pos := nofun
  consumed_le := nofun
  take_consumed := nofun
  stable := fun _ _ => rfl

/-- A parser whose first symbol selects a self-delimiting parser for the whole
buffer is self-delimiting. -/
theorem selfDelimiting_byFirst {more : ε} (select : β → List β → Outcome ε (α × ℕ))
    {parse : List β → Outcome ε (α × ℕ)} (parse_nil : parse [] = .error more)
    (parse_cons : ∀ first rest, parse (first :: rest) = select first (first :: rest))
    (delimited : ∀ first, SelfDelimiting more (select first)) : SelfDelimiting more parse where
  consumed_pos := by
    intro buf value n accepted
    cases buf with
    | nil => simp [parse_nil] at accepted
    | cons first rest => exact (delimited first).consumed_pos (parse_cons first rest ▸ accepted)
  consumed_le := by
    intro buf value n accepted
    cases buf with
    | nil => simp [parse_nil] at accepted
    | cons first rest => exact (delimited first).consumed_le (parse_cons first rest ▸ accepted)
  take_consumed := by
    intro buf value n accepted
    cases buf with
    | nil => simp [parse_nil] at accepted
    | cons first rest =>
        rw [parse_cons] at accepted
        obtain ⟨m, rfl⟩ := Nat.exists_eq_succ_of_ne_zero
          ((delimited first).consumed_pos accepted).ne'
        rw [List.take_succ_cons, parse_cons, ← List.take_succ_cons]
        exact (delimited first).take_consumed accepted
  stable := by
    intro buf suffix decided
    cases buf with
    | nil => exact absurd parse_nil decided
    | cons first rest =>
        rw [parse_cons] at decided
        rw [List.cons_append, parse_cons, parse_cons, ← List.cons_append]
        exact (delimited first).stable suffix decided

/-- A frame that opens with a self-delimiting header: it is enough that the rest
of the frame, which may look at the whole buffer, ends behind the header and
inside the buffer, and does not depend on what follows. -/
theorem selfDelimiting_bind {γ : Type w} {more : ε} {header : List β → Outcome ε (γ × ℕ)}
    (delimited : SelfDelimiting more header) (body : List β → γ → ℕ → Outcome ε (α × ℕ))
    (bounds : ∀ {buf announced start value n}, header buf = .ok (announced, start) →
      body buf announced start = .ok (value, n) → start ≤ n ∧ n ≤ buf.length)
    (cut : ∀ {buf announced start value n}, header buf = .ok (announced, start) →
      body buf announced start = .ok (value, n) →
      body (buf.take n) announced start = .ok (value, n))
    (stable : ∀ {buf announced start} (suffix : List β), header buf = .ok (announced, start) →
      body buf announced start ≠ .error more →
      body (buf ++ suffix) announced start = body buf announced start) :
    SelfDelimiting more fun buf => header buf >>= fun opened => body buf opened.1 opened.2 where
  consumed_pos := by
    intro buf value n accepted
    rcases Outcome.bind_eq_ok_iff.mp accepted with ⟨⟨announced, start⟩, opened, rest⟩
    exact (delimited.consumed_pos opened).trans_le (bounds opened rest).1
  consumed_le := by
    intro buf value n accepted
    rcases Outcome.bind_eq_ok_iff.mp accepted with ⟨⟨announced, start⟩, opened, rest⟩
    exact (bounds opened rest).2
  take_consumed := by
    intro buf value n accepted
    rcases Outcome.bind_eq_ok_iff.mp accepted with ⟨⟨announced, start⟩, opened, rest⟩
    exact Outcome.bind_eq_ok_iff.mpr ⟨(announced, start),
      delimited.take_of_le opened (bounds opened rest).1, cut opened rest⟩
  stable := by
    intro buf suffix decided
    have settled : header buf ≠ .error more := by
      intro waiting
      exact decided (by rw [waiting]; rfl)
    have same := delimited.stable suffix settled
    cases opened : header buf with
    | panic => rw [same, opened]; rfl
    | error reason => rw [same, opened]; rfl
    | ok value =>
        rw [opened] at decided
        rw [same, opened]
        exact stable suffix opened decided

/-- Read frames until the parser no longer accepts: the frames in order, and the
input that is left.  The fuel bounds the number of frames. -/
def unframeWithin (parse : List β → Outcome ε (α × ℕ)) : ℕ → List β → List α × List β
  | 0, buf => ([], buf)
  | fuel + 1, buf =>
      match parse buf with
      | .ok (value, n) =>
          let rest := unframeWithin parse fuel (buf.drop n)
          (value :: rest.1, rest.2)
      | _ => ([], buf)

/-- All frames at the front of a buffer, and the input behind them.  A frame
takes at least one symbol, so the length of the buffer is enough fuel. -/
def unframe (parse : List β → Outcome ε (α × ℕ)) (buf : List β) : List α × List β :=
  unframeWithin parse buf.length buf

section

variable {more : ε} {parse : List β → Outcome ε (α × ℕ)}

theorem unframeWithin_nil (delimited : SelfDelimiting more parse) (fuel : ℕ) :
    unframeWithin parse fuel [] = ([], []) := by
  cases fuel with
  | zero => rfl
  | succ fuel =>
      simp only [unframeWithin]
      split
      · next accepted => exact absurd accepted delimited.nil
      · rfl

theorem unframeWithin_eq_of_le (delimited : SelfDelimiting more parse) {buf : List β}
    {fuel fuel' : ℕ} (enough : buf.length ≤ fuel) (enough' : buf.length ≤ fuel') :
    unframeWithin parse fuel buf = unframeWithin parse fuel' buf := by
  induction fuel generalizing buf fuel' with
  | zero =>
      have empty : buf = [] := List.eq_nil_of_length_eq_zero (Nat.le_zero.mp enough)
      rw [empty, unframeWithin_nil delimited, unframeWithin_nil delimited]
  | succ fuel ih =>
      cases fuel' with
      | zero =>
          have empty : buf = [] := List.eq_nil_of_length_eq_zero (Nat.le_zero.mp enough')
          rw [empty, unframeWithin_nil delimited, unframeWithin_nil delimited]
      | succ fuel' =>
          simp only [unframeWithin]
          split
          · next value n accepted =>
              have pos := delimited.consumed_pos accepted
              have bound := delimited.consumed_le accepted
              have shorter : (buf.drop n).length ≤ fuel := by
                rw [List.length_drop]; omega
              have shorter' : (buf.drop n).length ≤ fuel' := by
                rw [List.length_drop]; omega
              rw [ih shorter shorter']
          · rfl

/-- One accepted frame is read off the front. -/
theorem unframe_of_ok (delimited : SelfDelimiting more parse) {buf : List β} {value : α} {n : ℕ}
    (accepted : parse buf = .ok (value, n)) :
    unframe parse buf =
      (value :: (unframe parse (buf.drop n)).1, (unframe parse (buf.drop n)).2) := by
  have pos := delimited.consumed_pos accepted
  have bound := delimited.consumed_le accepted
  obtain ⟨fuel, length_eq⟩ : ∃ fuel, buf.length = fuel + 1 :=
    ⟨buf.length - 1, by omega⟩
  have shorter : (buf.drop n).length ≤ fuel := by
    rw [List.length_drop]; omega
  have same : unframeWithin parse fuel (buf.drop n) = unframe parse (buf.drop n) :=
    unframeWithin_eq_of_le delimited shorter le_rfl
  rw [unframe, length_eq]
  simp only [unframeWithin, accepted, same]

/-- Where the parser does not accept, nothing is read. -/
theorem unframe_of_not_ok {buf : List β}
    (rejected : ∀ value n, parse buf ≠ .ok (value, n)) :
    unframe parse buf = ([], buf) := by
  unfold unframe
  cases buf.length with
  | zero => rfl
  | succ fuel =>
      rw [unframeWithin]
      split
      · next value n accepted => exact absurd accepted (rejected value n)
      · rfl

/-- What is left behind the frames is not accepted. -/
theorem unframe_rest_not_ok (delimited : SelfDelimiting more parse) (buf : List β)
    (value : α) (n : ℕ) : parse (unframe parse buf).2 ≠ .ok (value, n) := by
  induction h : buf.length using Nat.strongRecOn generalizing buf with
  | _ length ih =>
      by_cases accepts : ∃ value n, parse buf = .ok (value, n)
      · rcases accepts with ⟨first, m, accepted⟩
        have pos := delimited.consumed_pos accepted
        have bound := delimited.consumed_le accepted
        rw [unframe_of_ok delimited accepted]
        exact ih (buf.drop m).length (by rw [List.length_drop]; omega) (buf.drop m) rfl
      · push Not at accepts
        rw [unframe_of_not_ok accepts]
        exact accepts value n

/-- Reading a stream in two pieces: the frames of the first piece, then those
found in what it left over followed by the second piece. -/
theorem unframe_append (delimited : SelfDelimiting more parse) (buf suffix : List β) :
    unframe parse (buf ++ suffix) =
      ((unframe parse buf).1 ++ (unframe parse ((unframe parse buf).2 ++ suffix)).1,
        (unframe parse ((unframe parse buf).2 ++ suffix)).2) := by
  induction h : buf.length using Nat.strongRecOn generalizing buf with
  | _ length ih =>
      by_cases accepts : ∃ value n, parse buf = .ok (value, n)
      · rcases accepts with ⟨value, n, accepted⟩
        have pos := delimited.consumed_pos accepted
        have bound := delimited.consumed_le accepted
        have accepted' : parse (buf ++ suffix) = .ok (value, n) := by
          rw [delimited.stable suffix (by simp [accepted]), accepted]
        have shorter := ih (buf.drop n).length
          (by rw [List.length_drop]; omega) (buf.drop n) rfl
        rw [unframe_of_ok delimited accepted', unframe_of_ok delimited accepted,
          List.drop_append_of_le_length bound, shorter]
        rfl
      · push Not at accepts
        rw [unframe_of_not_ok accepts]
        rfl

end

end Ember.Base.Framing
