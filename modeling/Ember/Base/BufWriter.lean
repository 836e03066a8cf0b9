import Mathlib.Data.List.Basic

/-!
# Buffered writers

A writer that collects pieces and hands them on together.  When it hands them on is its
own business: how much at each write is a parameter.  What has been handed on and what is
still buffered make up everything written, in order, and a flush leaves nothing in the
buffer.
-/

namespace Ember.Base

universe u

/-- How much a writer hands on when a piece is written: it may depend on what was handed
on before, on what is buffered and on the piece. -/
abbrev Spill (β : Type u) := (sent buffer data : List β) → ℕ

/-- Nothing is handed on before a flush. -/
def Spill.atFlush {β : Type u} : Spill β :=
  fun _ _ _ => 0

/-- What was handed on, and what is still buffered. -/
structure BufWriter (β : Type u) where
  spill : Spill β
  sent : List β
  buffer : List β

namespace BufWriter

variable {β : Type u}

/-- A writer that holds nothing. -/
def new (spill : Spill β) : BufWriter β :=
  ⟨spill, [], []⟩

/-- Hand on the buffer. -/
def flush (w : BufWriter β) : BufWriter β :=
  { w with sent := w.sent ++ w.buffer, buffer := [] }

/-- Write a piece. -/
def writeAll (data : List β) (w : BufWriter β) : BufWriter β :=
  let count := w.spill w.sent w.buffer data
  { w with
    sent := w.sent ++ (w.buffer ++ data).take count
    buffer := (w.buffer ++ data).drop count }

/-- Everything written so far. -/
def written (w : BufWriter β) : List β :=
  w.sent ++ w.buffer

@[simp]
theorem written_flush (w : BufWriter β) : w.flush.written = w.written :=
  List.append_nil _

@[simp]
theorem buffer_flush (w : BufWriter β) : w.flush.buffer = [] :=
  rfl

/-- Whatever goes through the buffer, the pieces stay in order. -/
theorem written_writeAll (data : List β) (w : BufWriter β) :
    (w.writeAll data).written = w.written ++ data := by
  rw [written, written, writeAll, List.append_assoc, List.take_append_drop, List.append_assoc]

end BufWriter

end Ember.Base
