import Ember.Base.Outcome
import Mathlib.Data.List.Basic

/-!
# Readers

A reader takes items from the front of an input and returns a value, or fails.
`Decodes` says that it takes exactly the given items, whatever comes behind
them; it composes along the structure of a reader.  So does `Steady`: more items
behind the input never change what was read from it, and therefore no reader
accepts less than the items it decodes.
-/

namespace Ember.Base

universe u v

/-- A computation that takes items from an input. -/
abbrev Reader (ε : Type u) (β : Type v) := StateT (List β) (Outcome ε)

namespace Reader

variable {ε : Type u} {β α γ : Type v}

/-- Take exactly `n` items; `short` is the error when there are fewer. -/
def readExact (short : ε) (n : ℕ) : Reader ε β (List β) :=
  fun input => if n ≤ input.length then .ok (input.take n, input.drop n) else .error short

/-- Take one item. -/
def readOne (short : ε) : Reader ε β β
  | [] => .error short
  | item :: rest => .ok (item, rest)

/-- Fail without taking anything. -/
def fail (reason : ε) : Reader ε β α :=
  fun _ => .error reason

/-- The reader takes exactly the items `front`, and they stand for `value`. -/
def Decodes (reader : Reader ε β α) (front : List β) (value : α) : Prop :=
  ∀ rest, reader (front ++ rest) = .ok (value, rest)

/-- The reader fails on inputs that begin with the items `front`. -/
def Refuses (reader : Reader ε β α) (front : List β) : Prop :=
  ∀ rest, ∃ reason, reader (front ++ rest) = .error reason

theorem decodes_pure (value : α) : Decodes (pure value : Reader ε β α) [] value :=
  fun _ => rfl

theorem Decodes.bind {reader : Reader ε β α} {next : α → Reader ε β γ} {front back : List β}
    {value : α} {result : γ} (first : Decodes reader front value)
    (second : Decodes (next value) back result) :
    Decodes (reader >>= next) (front ++ back) result := by
  intro rest
  change (reader (front ++ back ++ rest) >>= fun (value, rest) => next value rest) = _
  rw [List.append_assoc, first]
  exact second rest

/-- A reader that ends by returning a value it computes. -/
theorem Decodes.bind_pure {reader : Reader ε β α} {f : α → γ} {front : List β} {value : α}
    (first : Decodes reader front value) :
    Decodes (reader >>= fun value => pure (f value)) front (f value) := by
  have both : Decodes (reader >>= fun value => pure (f value)) (front ++ []) (f value) :=
    first.bind (decodes_pure (f value))
  rwa [List.append_nil] at both

theorem Decodes.map {reader : Reader ε β α} {front : List β} {value : α}
    (decodes : Decodes reader front value) (f : α → γ) :
    Decodes (f <$> reader) front (f value) := by
  rw [← bind_pure_comp]
  exact decodes.bind_pure

theorem Decodes.bind_refuses {reader : Reader ε β α} {next : α → Reader ε β γ}
    {front back : List β} {value : α} (first : Decodes reader front value)
    (second : Refuses (next value) back) : Refuses (reader >>= next) (front ++ back) := by
  intro rest
  rcases second rest with ⟨reason, failed⟩
  refine ⟨reason, ?_⟩
  change (reader (front ++ back ++ rest) >>= fun (value, rest) => next value rest) = _
  rw [List.append_assoc, first]
  exact failed

theorem Refuses.map {reader : Reader ε β α} {front : List β} (refuses : Refuses reader front)
    (f : α → γ) : Refuses (f <$> reader) front := by
  intro rest
  rcases refuses rest with ⟨reason, failed⟩
  refine ⟨reason, ?_⟩
  change (f <$> reader) (front ++ rest) = _
  rw [← bind_pure_comp]
  change (reader (front ++ rest) >>= _) = _
  rw [failed]
  rfl

theorem refuses_fail (reason : ε) (front : List β) :
    Refuses (fail reason : Reader ε β α) front :=
  fun _ => ⟨reason, rfl⟩

theorem decodes_readOne (short : ε) (item : β) : Decodes (readOne short) [item] item :=
  fun _ => rfl

/-- Only a part of the items may be taken. -/
theorem readExact_append {n : ℕ} {items : List β} (enough : n ≤ items.length) (short : ε)
    (rest : List β) :
    readExact short n (items ++ rest) = .ok (items.take n, items.drop n ++ rest) := by
  rw [readExact, if_pos (Nat.le_trans enough (List.prefix_append items rest).length_le),
    List.take_append_of_le_length enough, List.drop_append_of_le_length enough]

theorem decodes_readExact (short : ε) (items : List β) :
    Decodes (readExact short items.length) items items := by
  intro rest
  rw [readExact_append (Nat.le_refl _), List.take_length, List.drop_length, List.nil_append]

/-! ## Cut inputs -/

/-- The reader returns, and what it has read does not depend on what follows. -/
structure Steady (reader : Reader ε β α) : Prop where
  returns : ∀ input, reader input ≠ .panic
  extended : ∀ {input : List β} {value : α} {rest : List β},
    reader input = .ok (value, rest) → ∀ more, reader (input ++ more) = .ok (value, rest ++ more)

theorem bind_apply (reader : Reader ε β α) (next : α → Reader ε β γ) (input : List β) :
    (reader >>= next) input = reader input >>= fun read => next read.1 read.2 :=
  rfl

theorem steady_pure (value : α) : Steady (pure value : Reader ε β α) where
  returns := nofun
  extended := by
    intro input value' rest read more
    cases read
    rfl

theorem steady_fail (reason : ε) : Steady (fail reason : Reader ε β α) where
  returns := nofun
  extended := nofun

theorem steady_readOne (short : ε) : Steady (readOne short : Reader ε β β) where
  returns := by
    intro input
    cases input <;> nofun
  extended := by
    intro input value rest read more
    cases input with
    | nil => cases read
    | cons item tail =>
        cases read
        rfl

theorem steady_readExact (short : ε) (n : ℕ) :
    Steady (readExact short n : Reader ε β (List β)) where
  returns := by
    intro input
    rw [readExact]
    split <;> nofun
  extended := by
    intro input value rest read more
    rw [readExact] at read
    split at read
    next enough =>
      cases read
      exact readExact_append enough short more
    next => cases read

theorem Steady.bind {reader : Reader ε β α} {next : α → Reader ε β γ} (first : Steady reader)
    (second : ∀ value, Steady (next value)) : Steady (reader >>= next) where
  returns := by
    intro input
    rw [bind_apply]
    cases read : reader input with
    | panic => exact absurd read (first.returns input)
    | error reason => nofun
    | ok result => exact (second result.1).returns result.2
  extended := by
    intro input value rest read more
    rw [bind_apply] at read ⊢
    rcases Outcome.bind_eq_ok_iff.mp read with ⟨⟨middle, tail⟩, front, back⟩
    rw [first.extended front more]
    exact (second middle).extended back more

theorem Steady.exists_error {reader : Reader ε β α} (steady : Steady reader) {input : List β}
    (refused : ∀ result, reader input ≠ .ok result) : ∃ reason, reader input = .error reason := by
  cases read : reader input with
  | panic => exact absurd read (steady.returns input)
  | error reason => exact ⟨reason, rfl⟩
  | ok result => exact absurd read (refused result)

/-- A steady reader fails on every proper part of what it decodes. -/
theorem Steady.fails_of_cut {reader : Reader ε β α} (steady : Steady reader)
    {front part : List β} {value : α} (decodes : Decodes reader front value)
    (cut : part <+: front) (proper : part ≠ front) : ∃ reason, reader part = .error reason := by
  rcases cut with ⟨more, rfl⟩
  apply steady.exists_error
  intro result read
  have whole := decodes []
  rw [List.append_nil, steady.extended read more] at whole
  have rest : result.2 ++ more = [] := congrArg Prod.snd (Outcome.ok.inj whole)
  rw [(List.append_eq_nil_iff.mp rest).2, List.append_nil] at proper
  exact proper rfl

/-- A steady reader fails on every part of what it refuses. -/
theorem Steady.fails_of_cut_refused {reader : Reader ε β α} (steady : Steady reader)
    {front part : List β} (refuses : Refuses reader front) (cut : part <+: front) :
    ∃ reason, reader part = .error reason := by
  rcases cut with ⟨more, rfl⟩
  apply steady.exists_error
  intro result read
  rcases refuses [] with ⟨reason, failed⟩
  rw [List.append_nil, steady.extended read more] at failed
  cases failed

end Reader

end Ember.Base
