import Ember.Config.Segmentation

/-!
# When a connection yields

The outer loop of a connection in single steps, each marked with what it did: read
bytes, consumed a frame, awaited something.  An iteration that does none of these is
followed by the same iteration again as long as nothing arrives, and keeps its worker
thread all that time.  Such iterations are exactly those that begin with an unfinished
frame in the buffer and a read that would block.
-/

namespace Ember

open Ember.Base Ember.Base.Framing Ember.Resp

universe u

/-- Where the task is: at the top of the outer loop, in the loop over the frames, or
behind it. -/
inductive Point where
  | outer
  | inner (pipelineCount : ℕ) (madeProgress : Bool)
  | behind (madeProgress : Bool)
  deriving DecidableEq

/-- What a step did. -/
structure Mark where
  read : Bool
  consumed : Bool
  awaited : Bool
  deriving DecidableEq

/-- Nothing was read, no frame was consumed and nothing was awaited. -/
def Mark.idle : Mark :=
  ⟨false, false, false⟩

/-- The task, and what the attempts to read from the socket will give. -/
structure Loop (S : Type u) where
  point : Point
  conn : Connection S
  input : List ReadEvent

/-- A step ends the connection or leads on. -/
abbrev Stepped (S : Type u) := (Exit × Connection S) ⊕ (Mark × Loop S)

namespace Loop

variable {S : Type u}

/-- With an empty buffer the read is awaited; otherwise it is only tried. -/
def readStep (conn : Connection S) : List ReadEvent → Stepped S
  | [] => .inl (.closed, conn.flush)
  | event :: input =>
      if conn.buf = [] ∧ event = .wouldBlock then
        .inr (⟨false, false, true⟩, ⟨.outer, conn, input⟩)
      else
        match conn.receive event with
        | none => .inl (.closed, conn.flush)
        | some received =>
            .inr (⟨event ≠ .wouldBlock, false, conn.buf = []⟩, ⟨.inner 0 false, received, input⟩)

/-- Behind the loop over the frames the replies are sent if there was a frame. -/
def leaveStep (madeProgress : Bool) (conn : Connection S) (input : List ReadEvent) : Stepped S :=
  if madeProgress ∧ conn.writer.buffer ≠ [] then
    .inr (⟨false, false, true⟩, ⟨.outer, conn.flush, input⟩)
  else
    .inr (Mark.idle, ⟨.outer, conn, input⟩)

variable (target : Target) (serve : Serve S)

/-- One round of the loop over the frames, unless it panics.  Writing a reply is
awaited. -/
def frameStep (pipelineCount : ℕ) (madeProgress : Bool) (conn : Connection S)
    (input : List ReadEvent) : Connection S ⊕ (Mark × Loop S) :=
  match Connection.frame target serve pipelineCount conn with
  | .again count conn => .inr (⟨false, true, true⟩, ⟨.inner count true, conn, input⟩)
  | .waiting => .inr (Mark.idle, ⟨.behind madeProgress, conn, input⟩)
  | .cleared conn => .inr (⟨false, false, true⟩, ⟨.behind madeProgress, conn, input⟩)
  | .panicked conn => .inl conn

/-- One step of the loops. -/
def step (loop : Loop S) : Stepped S :=
  match loop.point with
  | .outer => readStep loop.conn loop.input
  | .inner pipelineCount madeProgress =>
      (frameStep target serve pipelineCount madeProgress loop.conn loop.input).map
        (Exit.panicked, ·) id
  | .behind madeProgress => leaveStep madeProgress loop.conn loop.input

/-! ## The steps make up the loop -/

/-- The rest of an iteration whose loop over the frames is done. -/
def outcomeBehind (input : List ReadEvent) : Drained S → Exit × Connection S
  | .done madeProgress conn =>
      Connection.handle target serve input
        (if madeProgress ∧ conn.writer.buffer ≠ [] then conn.flush else conn)
  | .panicked conn => (.panicked, conn)

/-- What the connection comes to from here on. -/
def outcome (loop : Loop S) : Exit × Connection S :=
  match loop.point with
  | .outer => Connection.handle target serve loop.input loop.conn
  | .inner pipelineCount madeProgress =>
      outcomeBehind target serve loop.input (Connection.drain target serve loop.conn.buf.length
        pipelineCount madeProgress loop.conn)
  | .behind madeProgress => outcomeBehind target serve loop.input (.done madeProgress loop.conn)

/-- What the loop over the frames goes on to after a step. -/
def drained (fuel : ℕ) (loop : Loop S) : Drained S :=
  match loop.point with
  | .inner pipelineCount madeProgress =>
      Connection.drain target serve fuel pipelineCount madeProgress loop.conn
  | .behind madeProgress => .done madeProgress loop.conn
  | .outer => .done false loop.conn

variable {target serve}

section Frame

variable {pipelineCount : ℕ} {conn conn' : Connection S}

/-- A round that goes on has taken a frame from the buffer. -/
theorem length_of_again {count : ℕ}
    (turn : Connection.frame target serve pipelineCount conn = .again count conn') :
    conn'.buf.length < conn.buf.length := by
  have delimited := Parser.parse_selfDelimiting target
  rw [Connection.frame_eq] at turn
  split at turn
  · cases turn
  · split at turn
    next resp consumed verdict =>
      have shorter : (conn.buf.drop consumed).length < conn.buf.length := by
        have pos := delimited.consumed_pos verdict
        have bound := delimited.consumed_le verdict
        rw [List.length_drop]
        omega
      split at turn
      · dsimp only at turn
        split at turn <;>
        · cases turn
          exact shorter
      · cases turn
        exact shorter
      · cases turn
    all_goals cases turn

theorem incomplete_of_waiting
    (turn : Connection.frame target serve pipelineCount conn = .waiting) :
    Parser.parse target conn.buf = .error .incomplete := by
  rw [Connection.frame_eq] at turn
  split at turn
  next empty =>
    rw [empty]
    rfl
  next =>
    split at turn
    · split at turn
      · dsimp only at turn
        split at turn <;> cases turn
      · cases turn
      · cases turn
    next waiting => exact waiting
    · cases turn
    · cases turn

theorem buf_of_cleared
    (turn : Connection.frame target serve pipelineCount conn = .cleared conn') :
    conn'.buf = [] := by
  rw [Connection.frame_eq] at turn
  split at turn
  · cases turn
  · split at turn
    · split at turn
      · dsimp only at turn
        split at turn <;> cases turn
      · cases turn
      · cases turn
    · cases turn
    · cases turn
      rfl
    · cases turn

end Frame

theorem drain_succ_eq (fuel pipelineCount : ℕ) (madeProgress : Bool) (conn : Connection S)
    (input : List ReadEvent) :
    Connection.drain target serve (fuel + 1) pipelineCount madeProgress conn =
      match frameStep target serve pipelineCount madeProgress conn input with
      | .inl conn' => .panicked conn'
      | .inr (_, loop') => drained target serve fuel loop' := by
  rw [frameStep, Connection.drain_eq_frame]
  cases Connection.frame target serve pipelineCount conn <;> rfl

/-- What a round of the loop over the frames can lead to: one frame less in the buffer,
or the end of the loop with an unfinished frame or nothing left. -/
theorem frameStep_cases {pipelineCount : ℕ} {madeProgress : Bool} {conn : Connection S}
    {input : List ReadEvent} {mark : Mark} {loop : Loop S}
    (taken : frameStep target serve pipelineCount madeProgress conn input = .inr (mark, loop)) :
    loop.input = input ∧
      ((∃ count, loop.point = .inner count true ∧ mark = ⟨false, true, true⟩ ∧
          loop.conn.buf.length < conn.buf.length) ∨
        loop.point = .behind madeProgress ∧
          Parser.parse target loop.conn.buf = .error .incomplete ∧
          (mark = ⟨false, false, true⟩ ∨ mark = Mark.idle ∧ loop.conn = conn)) := by
  rw [frameStep] at taken
  cases turn : Connection.frame target serve pipelineCount conn with
  | again count conn' =>
      rw [turn] at taken
      cases taken
      exact ⟨rfl, Or.inl ⟨count, rfl, rfl, length_of_again turn⟩⟩
  | waiting =>
      rw [turn] at taken
      cases taken
      exact ⟨rfl, Or.inr ⟨rfl, incomplete_of_waiting turn, Or.inr ⟨rfl, rfl⟩⟩⟩
  | cleared conn' =>
      rw [turn] at taken
      cases taken
      exact ⟨rfl, Or.inr ⟨rfl, by rw [buf_of_cleared turn]; rfl, Or.inl rfl⟩⟩
  | panicked conn' =>
      rw [turn] at taken
      cases taken

theorem drain_of_empty {fuel pipelineCount : ℕ} {madeProgress : Bool} {conn : Connection S}
    (empty : conn.buf.length ≤ 0) :
    Connection.drain target serve fuel pipelineCount madeProgress conn =
      .done madeProgress conn := by
  apply Connection.drain_of_incomplete
  rw [List.eq_nil_of_length_eq_zero (Nat.le_zero.mp empty)]
  rfl

/-- Beyond the length of the buffer, the number of rounds is irrelevant. -/
theorem drain_eq_of_le {fuel fuel' pipelineCount : ℕ} {madeProgress : Bool} {conn : Connection S}
    (enough : conn.buf.length ≤ fuel) (enough' : conn.buf.length ≤ fuel') :
    Connection.drain target serve fuel pipelineCount madeProgress conn =
      Connection.drain target serve fuel' pipelineCount madeProgress conn := by
  induction fuel generalizing fuel' pipelineCount madeProgress conn with
  | zero => rw [drain_of_empty enough, drain_of_empty enough]
  | succ fuel ih =>
      cases fuel' with
      | zero => rw [drain_of_empty enough', drain_of_empty enough']
      | succ fuel' =>
          rw [drain_succ_eq fuel _ _ _ [], drain_succ_eq fuel' _ _ _ []]
          cases taken : frameStep target serve pipelineCount madeProgress conn [] with
          | inl ended => rfl
          | inr next =>
              rcases next with ⟨mark, point, conn', input⟩
              rcases (frameStep_cases taken).2 with ⟨count, rfl, -, shorter⟩ | ⟨rfl, -⟩
              · exact ih (Nat.le_of_lt_succ (shorter.trans_le enough))
                  (Nat.le_of_lt_succ (shorter.trans_le enough'))
              · rfl

/-- Each step keeps what the connection comes to. -/
theorem outcome_eq (loop : Loop S) :
    outcome target serve loop = match step target serve loop with
      | .inl result => result
      | .inr (_, loop') => outcome target serve loop' := by
  rcases loop with ⟨_ | ⟨pipelineCount, madeProgress⟩ | madeProgress, conn, input⟩
  · rcases input with _ | ⟨event, input⟩
    · rfl
    · rw [outcome, step]
      dsimp only
      rw [Connection.handle_cons, readStep]
      split
      · rfl
      · cases conn.receive event with
        | none => rfl
        | some received =>
            simp only [outcome, Connection.serveBuffered_eq]
            cases Connection.drain target serve received.buf.length 0 false received <;> rfl
  · rw [outcome, step]
    dsimp only
    rw [drain_eq_of_le le_rfl (Nat.le_succ _), drain_succ_eq _ _ _ _ input]
    cases taken : frameStep target serve pipelineCount madeProgress conn input with
    | inl panicked => rfl
    | inr next =>
        rcases next with ⟨mark, point, conn', input'⟩
        rcases frameStep_cases taken with ⟨rfl, ⟨count, rfl, -, shorter⟩ | ⟨rfl, -⟩⟩
        · exact congrArg _ (drain_eq_of_le shorter.le le_rfl)
        · rfl
  · rw [outcome, step]
    dsimp only
    rw [outcomeBehind, leaveStep]
    split <;> rfl

/-- A step that does not end the connection. -/
def Goes (target : Target) (serve : Serve S) (loop loop' : Loop S) : Prop :=
  ∃ mark, step target serve loop = .inr (mark, loop')

/-- The states that a connection passes through. -/
def Passes (target : Target) (serve : Serve S) : Loop S → Loop S → Prop :=
  Relation.ReflTransGen (Goes target serve)

theorem Passes.outcome_eq {loop loop' : Loop S} (passes : Passes target serve loop loop') :
    outcome target serve loop = outcome target serve loop' := by
  induction passes with
  | refl => rfl
  | tail _ goes ih =>
      rcases goes with ⟨mark, taken⟩
      rw [ih, Loop.outcome_eq, taken]

theorem Passes.outcome_of_end {start loop : Loop S} (passes : Passes target serve start loop)
    {exit : Exit} {conn : Connection S} (ends : step target serve loop = .inl (exit, conn)) :
    start.outcome target serve = (exit, conn) := by
  rw [passes.outcome_eq, Loop.outcome_eq, ends]

/-! ## Iterations -/

/-- The states of a connection that starts in a given state, whatever it reads. -/
inductive Reachable (target : Target) (serve : Serve S) (state : S) : Loop S → Prop
  | start (spill : Spill UInt8) (input : List ReadEvent) :
      Reachable target serve state ⟨.outer, Connection.new spill state, input⟩
  | step {loop loop' : Loop S} {mark : Mark} (reachable : Reachable target serve state loop)
      (taken : step target serve loop = .inr (mark, loop')) :
      Reachable target serve state loop'

/-- The steps up to the next time the task is at the top of the outer loop, with their
marks. -/
inductive Iterates (target : Target) (serve : Serve S) : Loop S → List Mark → Loop S → Prop
  | last {loop loop' : Loop S} {mark : Mark} (taken : step target serve loop = .inr (mark, loop'))
      (top : loop'.point = .outer) : Iterates target serve loop [mark] loop'
  | more {loop loop' loop'' : Loop S} {mark : Mark} {marks : List Mark}
      (taken : step target serve loop = .inr (mark, loop')) (inside : loop'.point ≠ .outer)
      (rest : Iterates target serve loop' marks loop'') :
      Iterates target serve loop (mark :: marks) loop''

/-- Reading suspends the task, or leads into the loop over the frames. -/
theorem readStep_cases {conn : Connection S} {input : List ReadEvent} {mark : Mark}
    {loop : Loop S} (taken : readStep conn input = .inr (mark, loop)) :
    ∃ event rest, input = event :: rest ∧
      ((mark = ⟨false, false, true⟩ ∧ loop = ⟨.outer, conn, rest⟩ ∧ conn.buf = []) ∨
        mark = ⟨event ≠ .wouldBlock, false, conn.buf = []⟩ ∧ loop.point = .inner 0 false) := by
  rcases input with _ | ⟨event, rest⟩
  · cases taken
  · refine ⟨event, rest, rfl, ?_⟩
    rw [readStep] at taken
    split at taken
    next waits =>
      cases taken
      exact Or.inl ⟨rfl, rfl, waits.1⟩
    next =>
      split at taken
      · cases taken
      · cases taken
        exact Or.inr ⟨rfl, rfl⟩

theorem leaveStep_cases {madeProgress : Bool} {conn : Connection S} {input : List ReadEvent}
    {mark : Mark} {loop : Loop S}
    (taken : leaveStep madeProgress conn input = .inr (mark, loop)) :
    loop.point = .outer ∧ loop.conn.buf = conn.buf := by
  rw [leaveStep] at taken
  split at taken <;>
  · cases taken
    exact ⟨rfl, rfl⟩

/-- A step in the loop over the frames that does not panic is a round of it. -/
theorem frameStep_of_step {pipelineCount : ℕ} {madeProgress : Bool} {conn : Connection S}
    {input : List ReadEvent} {mark : Mark} {loop : Loop S}
    (taken : step target serve ⟨.inner pipelineCount madeProgress, conn, input⟩ =
      .inr (mark, loop)) :
    frameStep target serve pipelineCount madeProgress conn input = .inr (mark, loop) := by
  rw [step] at taken
  dsimp only at taken
  cases outcome : frameStep target serve pipelineCount madeProgress conn input with
  | inl panicked =>
      rw [outcome] at taken
      cases taken
  | inr next =>
      rw [outcome] at taken
      rw [show next = (mark, loop) from Sum.inr.inj taken]

/-- Outside the loop over the frames there is no complete frame in the buffer. -/
theorem incomplete_of_reachable {state : S} {loop : Loop S}
    (reachable : Reachable target serve state loop)
    (outside : ∀ count progress, loop.point ≠ .inner count progress) :
    Parser.parse target loop.conn.buf = .error .incomplete := by
  induction reachable with
  | start spill input => rfl
  | @step loop loop' mark reachable taken ih =>
      rcases loop with ⟨_ | ⟨pipelineCount, madeProgress⟩ | madeProgress, conn, input⟩
      · rcases readStep_cases taken with ⟨event, rest, -, ⟨-, rfl, -⟩ | ⟨-, inside⟩⟩
        · exact ih nofun
        · exact absurd inside (outside 0 false)
      · rcases (frameStep_cases (frameStep_of_step taken)).2 with
          ⟨count, inside, -⟩ | ⟨-, waiting, -⟩
        · exact absurd inside (outside count true)
        · exact waiting
      · rw [(leaveStep_cases taken).2]
        exact ih nofun

/-- With an unfinished frame and nothing to read, the task goes round once and is where
it was. -/
theorem iterates_wouldBlock {conn : Connection S} (unfinished : conn.buf ≠ [])
    (waiting : Parser.parse target conn.buf = .error .incomplete) (input : List ReadEvent) :
    Iterates target serve ⟨.outer, conn, .wouldBlock :: input⟩ [Mark.idle, Mark.idle, Mark.idle]
      ⟨.outer, conn, input⟩ := by
  have reads : step target serve ⟨.outer, conn, .wouldBlock :: input⟩ =
      .inr (Mark.idle, ⟨.inner 0 false, conn, input⟩) := by
    simp [step, readStep, unfinished, Link.receive, Mark.idle]
  have waits : step target serve ⟨.inner 0 false, conn, input⟩ =
      .inr (Mark.idle, ⟨.behind false, conn, input⟩) := by
    simp [step, frameStep, Connection.frame_eq, unfinished, waiting]
  have leaves : step target serve ⟨.behind false, conn, input⟩ =
      .inr (Mark.idle, ⟨.outer, conn, input⟩) := by
    simp [step, leaveStep]
  have inside : Point.inner 0 false ≠ .outer := by rintro ⟨⟩
  have behind : Point.behind false ≠ .outer := by rintro ⟨⟩
  exact .more reads inside (.more waits behind (.last leaves rfl))

/-- An iteration is determined by where it begins. -/
theorem Iterates.unique {loop finish finish' : Loop S} {marks marks' : List Mark}
    (iterates : Iterates target serve loop marks finish)
    (iterates' : Iterates target serve loop marks' finish') :
    marks = marks' ∧ finish = finish' := by
  induction iterates generalizing marks' with
  | last taken top =>
      cases iterates' with
      | last taken' top' =>
          cases taken.symm.trans taken'
          exact ⟨rfl, rfl⟩
      | more taken' inside' rest' =>
          cases taken.symm.trans taken'
          exact absurd top inside'
  | more taken inside rest ih =>
      cases iterates' with
      | last taken' top' =>
          cases taken.symm.trans taken'
          exact absurd top' inside
      | more taken' inside' rest' =>
          cases taken.symm.trans taken'
          obtain ⟨rfl, rfl⟩ := ih rest'
          exact ⟨rfl, rfl⟩

/-- When a connection spins.  In every run, an iteration of the outer loop that reads
nothing, consumes no frame and awaits nothing is one that begins with an unfinished frame
in the buffer and finds that the read would block; and then the connection is where it
was. -/
theorem iteration_idle_iff {state : S} {start finish : Loop S} {marks : List Mark}
    (reachable : Reachable target serve state start) (top : start.point = .outer)
    (iterates : Iterates target serve start marks finish) :
    ((∀ mark ∈ marks, mark = Mark.idle) ↔
      start.conn.buf ≠ [] ∧ start.input.head? = some .wouldBlock) ∧
    ((∀ mark ∈ marks, mark = Mark.idle) → finish = { start with input := start.input.tail }) := by
  have waiting := incomplete_of_reachable reachable (by rw [top]; nofun)
  have spins : start.conn.buf ≠ [] ∧ start.input.head? = some .wouldBlock →
      (∀ mark ∈ marks, mark = Mark.idle) ∧ finish = { start with input := start.input.tail } := by
    rintro ⟨unfinished, blocked⟩
    rcases start with ⟨point, conn, _ | ⟨event, input⟩⟩
    · cases blocked
    · cases blocked
      obtain rfl : point = .outer := top
      obtain ⟨rfl, rfl⟩ := iterates.unique (iterates_wouldBlock unfinished waiting input)
      exact ⟨by simp, rfl⟩
  have blocks : (∀ mark ∈ marks, mark = Mark.idle) →
      start.conn.buf ≠ [] ∧ start.input.head? = some .wouldBlock := by
    intro idle
    obtain ⟨mark, loop, taken, first⟩ :
        ∃ mark loop, step target serve start = .inr (mark, loop) ∧ mark = Mark.idle := by
      cases iterates with
      | last taken => exact ⟨_, _, taken, idle _ List.mem_cons_self⟩
      | more taken => exact ⟨_, _, taken, idle _ List.mem_cons_self⟩
    rcases start with ⟨point, conn, input⟩
    obtain rfl : point = .outer := top
    rcases readStep_cases taken with ⟨event, rest, rfl, ⟨awaits, -⟩ | ⟨did, -⟩⟩
    · cases awaits.symm.trans first
    · have nothing := did.symm.trans first
      simpa [Mark.idle, and_comm] using nothing
  exact ⟨⟨blocks, fun blocked => (spins blocked).1⟩, fun idle => (spins (blocks idle)).2⟩

/-- The iteration in which a new connection receives the first line of an array awaits
the read; the state it leads to is the one of the next instance. -/
theorem iteration_idle_iff_first_line :
    let serve := Client.serve ⟨true, 32⟩ fun _ => 0
    let state : Session := ⟨Client.new, ⟨∅, ∅⟩, 0⟩
    let input := [.bytes (utf8Bytes "*1\r\n"), .wouldBlock]
    let line : Connection Session := ⟨utf8Bytes "*1\r\n", .new .atFlush, state⟩
    let marks := [⟨true, false, true⟩, Mark.idle, Mark.idle]
    Iterates ⟨true, 32⟩ serve ⟨.outer, Connection.new .atFlush state, input⟩ marks
        ⟨.outer, line, [.wouldBlock]⟩ ∧ ¬∀ mark ∈ marks, mark = Mark.idle := by
  intro serve state input line marks
  have iterates : Iterates ⟨true, 32⟩ serve ⟨.outer, Connection.new .atFlush state, input⟩ marks
      ⟨.outer, line, [.wouldBlock]⟩ := .more rfl nofun (.more rfl nofun (.last rfl rfl))
  refine ⟨iterates, fun idle => ?_⟩
  exact ((iteration_idle_iff (.start .atFlush input) rfl iterates).1.mp idle).1 rfl

/-- The first line of an array has arrived and the rest has not: one iteration after the
other does nothing, without ever awaiting the rest. -/
theorem iterates_idle_first_line :
    let serve := Client.serve ⟨true, 32⟩ fun _ => 0
    let state : Session := ⟨Client.new, ⟨∅, ∅⟩, 0⟩
    let line : Connection Session := ⟨utf8Bytes "*1\r\n", .new .atFlush, state⟩
    let idle := [Mark.idle, Mark.idle, Mark.idle]
    Reachable ⟨true, 32⟩ serve state ⟨.outer, line, [.wouldBlock, .wouldBlock]⟩ ∧
      Iterates ⟨true, 32⟩ serve ⟨.outer, line, [.wouldBlock, .wouldBlock]⟩ idle
        ⟨.outer, line, [.wouldBlock]⟩ ∧
      Iterates ⟨true, 32⟩ serve ⟨.outer, line, [.wouldBlock]⟩ idle ⟨.outer, line, []⟩ := by
  intro serve state line idle
  refine ⟨?_, iterates_wouldBlock (by decide) rfl _, iterates_wouldBlock (by decide) rfl _⟩
  have start : Reachable ⟨true, 32⟩ serve state ⟨.outer, Connection.new .atFlush state,
      [.bytes (utf8Bytes "*1\r\n"), .wouldBlock, .wouldBlock]⟩ := .start _ _
  exact ((start.step rfl).step rfl).step rfl

end Loop

end Ember
