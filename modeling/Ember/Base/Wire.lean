import Ember.Base.BufWriter

/-!
# Buffered writers over a sink that may fail

A writer reports a failure to whoever was writing at that moment, who may or may not
heed it.  How it buffers and when it hands things on is left open, and so is what the
sink does.  The laws are that items stay in order and none is lost while the sink works,
and that a sink that has failed takes nothing more.  So what it has taken is always the
beginning of all that was written.
-/

namespace Ember.Base

universe u v

/-- A writer with the sink behind it.  Writing a piece and flushing answer whether they
succeeded. -/
structure Wire (β : Type u) (W : Type v) where
  new : W
  writeAll : List β → W → Bool × W
  flush : W → Bool × W
  buffer : W → List β
  received : W → List β
  broken : W → Prop

namespace Wire

variable {β : Type u} {W : Type v} (wire : Wire β W)

/-- From one state to another, with a piece that was to be written in between. -/
structure Moves (data : List β) (w w' : W) : Prop where
  order : ¬wire.broken w' →
    wire.received w' ++ wire.buffer w' = wire.received w ++ wire.buffer w ++ data
  cut : ¬wire.broken w → wire.received w' <+: wire.received w ++ wire.buffer w ++ data
  final : wire.broken w → wire.broken w' ∧ wire.received w' = wire.received w

/-- What is assumed of a writer and its sink. -/
structure Laws : Prop where
  new_received : wire.received wire.new = []
  new_buffer : wire.buffer wire.new = []
  new_works : ¬wire.broken wire.new
  writeAll_moves : ∀ data w, wire.Moves data w (wire.writeAll data w).2
  flush_moves : ∀ w, wire.Moves [] w (wire.flush w).2
  writeAll_reports : ∀ data w, (wire.writeAll data w).1 = false →
    wire.broken (wire.writeAll data w).2
  flush_reports : ∀ w, (wire.flush w).1 = false → wire.broken (wire.flush w).2
  flush_empties : ∀ w, (wire.flush w).1 = true → wire.buffer (wire.flush w).2 = []

/-- The writer accounts for everything written: what was not received is buffered, or the
sink has failed and the rest is lost. -/
def Accounts (w : W) (written : List β) : Prop :=
  (wire.received w ++ wire.buffer w = written ∧ ¬wire.broken w) ∨
    (wire.received w <+: written ∧ wire.broken w)

variable {wire} {w w' : W} {written : List β}

theorem Laws.accounts_new (laws : wire.Laws) : wire.Accounts wire.new [] :=
  Or.inl ⟨by rw [laws.new_received, laws.new_buffer, List.nil_append], laws.new_works⟩

theorem Accounts.received_isPrefix (accounts : wire.Accounts w written) :
    wire.received w <+: written := by
  rcases accounts with ⟨rfl, -⟩ | ⟨taken, -⟩
  · exact List.prefix_append _ _
  · exact taken

/-- A sink that has not failed. -/
theorem Accounts.eq_of_works (accounts : wire.Accounts w written) (works : ¬wire.broken w) :
    wire.received w ++ wire.buffer w = written := by
  rcases accounts with ⟨all, -⟩ | ⟨-, broken⟩
  · exact all
  · exact absurd broken works

/-- After a failure it does not matter what else is to be written. -/
theorem Accounts.append (accounts : wire.Accounts w written) (broken : wire.broken w)
    (data : List β) : wire.Accounts w (written ++ data) :=
  Or.inr ⟨accounts.received_isPrefix.trans (List.prefix_append _ _), broken⟩

theorem Moves.accounts {data : List β} (moves : wire.Moves data w w')
    (accounts : wire.Accounts w written) : wire.Accounts w' (written ++ data) := by
  by_cases broken : wire.broken w
  · rcases moves.final broken with ⟨still, same⟩
    refine Or.inr ⟨?_, still⟩
    rw [same]
    exact accounts.received_isPrefix.trans (List.prefix_append _ _)
  · have all := accounts.eq_of_works broken
    by_cases broken' : wire.broken w'
    · exact Or.inr ⟨all ▸ moves.cut broken, broken'⟩
    · exact Or.inl ⟨all ▸ moves.order broken', broken'⟩

theorem Laws.accounts_flush (laws : wire.Laws) (accounts : wire.Accounts w written) :
    wire.Accounts (wire.flush w).2 written := by
  have next := (laws.flush_moves w).accounts accounts
  rwa [List.append_nil] at next

/-! ## Sinks that do not fail, or at a certain point -/

/-- A sink that takes everything. -/
def unfailing (spill : Spill β) : Wire β (BufWriter β) where
  new := .new spill
  writeAll data w := (true, w.writeAll data)
  flush w := (true, w.flush)
  buffer := BufWriter.buffer
  received := BufWriter.sent
  broken _ := False

theorem laws_unfailing (spill : Spill β) : (unfailing spill).Laws where
  new_received := rfl
  new_buffer := rfl
  new_works := id
  writeAll_moves data w := by
    have written : _ ++ _ = _ := w.written_writeAll data
    exact ⟨fun _ => written, fun _ => ⟨_, written⟩, False.elim⟩
  flush_moves w := by
    have written : w.flush.sent ++ w.flush.buffer = w.sent ++ w.buffer ++ [] := rfl
    exact ⟨fun _ => written, fun _ => ⟨_, written⟩, False.elim⟩
  writeAll_reports data w := by rintro ⟨⟩
  flush_reports w := by rintro ⟨⟩
  flush_empties _ _ := rfl

/-- What was received, what is buffered, and whether the sink has failed. -/
structure Bounded (β : Type u) where
  received : List β
  buffer : List β
  failed : Bool

/-- A sink that takes a number of items in all and then fails, behind a writer that waits
for a flush. -/
def upTo (limit : ℕ) : Wire β (Bounded β) where
  new := ⟨[], [], false⟩
  writeAll data w := (true, { w with buffer := w.buffer ++ data })
  flush w :=
    if w.failed then
      (false, w)
    else if (w.received ++ w.buffer).length ≤ limit then
      (true, ⟨w.received ++ w.buffer, [], false⟩)
    else
      (false, ⟨(w.received ++ w.buffer).take limit, w.buffer, true⟩)
  buffer := Bounded.buffer
  received := Bounded.received
  broken w := w.failed = true

theorem flush_upTo (limit : ℕ) (w : Bounded β) :
    (w.failed = true ∧ (upTo limit).flush w = (false, w)) ∨
      w.failed ≠ true ∧
        ((upTo limit).flush w = (true, ⟨w.received ++ w.buffer, [], false⟩) ∨
          (upTo limit).flush w =
            (false, ⟨(w.received ++ w.buffer).take limit, w.buffer, true⟩)) := by
  by_cases failed : w.failed = true
  · exact Or.inl ⟨failed, if_pos failed⟩
  · refine Or.inr ⟨failed, ?_⟩
    by_cases fits : (w.received ++ w.buffer).length ≤ limit
    · exact Or.inl ((if_neg failed).trans (if_pos fits))
    · exact Or.inr ((if_neg failed).trans (if_neg fits))

theorem laws_upTo (limit : ℕ) : (upTo limit : Wire β (Bounded β)).Laws where
  new_received := rfl
  new_buffer := rfl
  new_works := Bool.false_ne_true
  writeAll_moves data w := by
    have written : w.received ++ (w.buffer ++ data) = w.received ++ w.buffer ++ data :=
      (List.append_assoc ..).symm
    exact ⟨fun _ => written, fun _ => ⟨_, written⟩, fun failed => ⟨failed, rfl⟩⟩
  flush_moves w := by
    rcases flush_upTo limit w with ⟨failed, same⟩ | ⟨works, all | part⟩
    · rw [same]
      exact ⟨fun works => absurd failed works, fun works => absurd failed works,
        fun failed => ⟨failed, rfl⟩⟩
    · rw [all]
      exact ⟨fun _ => rfl, fun _ => List.prefix_append _ _, fun failed => absurd failed works⟩
    · rw [part]
      exact ⟨fun works' => absurd rfl works', fun _ =>
        (List.take_prefix _ _).trans (List.prefix_append _ _), fun failed => absurd failed works⟩
  writeAll_reports data w := by rintro ⟨⟩
  flush_reports w := by
    rcases flush_upTo limit w with ⟨failed, same⟩ | ⟨-, all | part⟩
    · rw [same]
      exact fun _ => failed
    · rw [all]
      rintro ⟨⟩
    · rw [part]
      exact fun _ => rfl
  flush_empties w := by
    rcases flush_upTo limit w with ⟨-, same⟩ | ⟨-, all | part⟩
    · rw [same]
      rintro ⟨⟩
    · rw [all]
      exact fun _ => rfl
    · rw [part]
      rintro ⟨⟩

end Wire

end Ember.Base
