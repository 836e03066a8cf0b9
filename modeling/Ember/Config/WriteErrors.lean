import Ember.Base.Wire
import Ember.Config.Yielding

/-!
# Connections whose socket fails

The same loop over a writer and a socket that may fail.  A failure ends the connection
when a command was answered or the replies were to be sent; it goes unnoticed when it was
an error that was to be answered.  Nevertheless the client only ever receives a beginning
of the replies that are written to a socket that does not fail, and every command that
was executed is executed there too.
-/

namespace Ember

open Ember.Base Ember.Resp

universe u

/-- How a connection ends: as usual, or at once because the socket has failed. -/
inductive Parting where
  | ended (exit : Exit)
  | aborted
  deriving DecidableEq

/-- How the loops are left when the socket has failed: with a last attempt to send the
replies, or at once. -/
inductive Cut (C : Type u) where
  | left (chan : C)
  | aborted (chan : C)

/-- The connection where the loop was left. -/
def Cut.chan {C : Type u} : Cut C → C
  | left chan | aborted chan => chan

/-- A connection over a socket that may fail. -/
abbrev Channel (W : Type) (S : Type u) := Link W S

namespace Channel

variable {W : Type} {S : Type u} (wire : Wire UInt8 W)

/-- A connection that has received nothing yet. -/
def new (state : S) : Channel W S :=
  ⟨[], wire.new, state⟩

/-- Write a reply, piece by piece and until one of them fails; the answer is whether none
did. -/
def reply (chan : Channel W S) (resp : RespType) : Bool × Channel W S :=
  let (ok, writer) := resp.writeTo
    (fun data w => if w.1 then wire.writeAll data w.2 else w) (true, chan.writer)
  (ok, { chan with writer })

/-- Send all replies, and whether that worked. -/
def flush (chan : Channel W S) : Bool × Channel W S :=
  let (ok, writer) := wire.flush chan.writer
  (ok, { chan with writer })

/-- Go on, or leave the loops. -/
def orCut (cut : Channel W S → Cut (Channel W S)) :
    Bool × Channel W S → Except (Cut (Channel W S)) (Channel W S)
  | (true, chan) => .ok chan
  | (false, chan) => .error (cut chan)

/-- A failure to write the reply of a command or to send the replies behind the loop over
the frames ends the connection, and one to send them between two frames ends the outer
loop.  Other failures are ignored. -/
def host (target : Target) (serve : Serve S) : Host (Except (Cut (Channel W S))) W S where
  target := target
  serve resp state := .ok (serve resp state)
  answer resp chan := orCut .aborted (reply wire chan resp)
  refuse resp chan := .ok (reply wire chan resp).2
  relieve chan := orCut .left (flush wire chan)
  send chan := orCut .aborted (flush wire chan)
  flush chan := .ok (flush wire chan).2
  buffered w := !(wire.buffer w).isEmpty

/-- Behind the outer loop the replies are sent once more, if that is possible. -/
def parting : Except (Cut (Channel W S)) (Exit × Channel W S) → Parting × Channel W S
  | .ok (exit, chan) => (.ended exit, chan)
  | .error (.left chan) => (.ended .closed, (flush wire chan).2)
  | .error (.aborted chan) => (.aborted, chan)

/-- The outer loop, with a writer that may fail. -/
def handle (target : Target) (serve : Serve S) (events : List ReadEvent) (chan : Channel W S) :
    Parting × Channel W S :=
  parting wire ((host wire target serve).handle events chan)

end Channel

/-! ## What was written stays written -/

namespace Connection

variable {S : Type u} {target : Target} {serve : Serve S} {base : List UInt8}

theorem isPrefix_writeAll (data : List UInt8) (w : BufWriter UInt8) (front : base <+: w.written) :
    base <+: (w.writeAll data).written := by
  rw [BufWriter.written_writeAll]
  exact front.trans (List.prefix_append _ _)

theorem isPrefix_flush (w : BufWriter UInt8) (front : base <+: w.written) :
    base <+: w.flush.written := by
  rwa [BufWriter.written_flush]

end Connection

namespace Loop

variable {S : Type u} {target : Target} {serve : Serve S}

/-- What a connection is on its way, or at its end. -/
def Visits (target : Target) (serve : Serve S) (start : Loop S) (conn : Connection S) : Prop :=
  ∃ loop, Passes target serve start loop ∧
    (loop.conn = conn ∨ ∃ exit, step target serve loop = .inl (exit, conn))

theorem written_outcomeBehind (input : List ReadEvent) (drained : Drained S) :
    drained.conn.writer.written <+:
      (outcomeBehind target serve input drained).2.writer.written := by
  have goes {conn : Connection S} (front : drained.conn.writer.written <+: conn.writer.written) :
      drained.conn.writer.written <+:
        (Connection.handle target serve input conn).2.writer.written :=
    @Connection.keeps_handle _ _ _ (drained.conn.writer.written <+: ·.written)
      Connection.isPrefix_writeAll Connection.isPrefix_flush input conn front
  cases drained with
  | done madeProgress conn =>
      rw [outcomeBehind]
      split
      · exact goes (Connection.isPrefix_flush _ (List.prefix_refl _))
      · exact goes (List.prefix_refl _)
  | panicked conn => exact List.prefix_refl _

/-- What was written stays at the beginning of all that will be. -/
theorem written_outcome (loop : Loop S) :
    loop.conn.writer.written <+: (outcome target serve loop).2.writer.written := by
  rcases loop with ⟨_ | ⟨pipelineCount, madeProgress⟩ | madeProgress, conn, input⟩
  · exact @Connection.keeps_handle _ _ _ (conn.writer.written <+: ·.written)
      Connection.isPrefix_writeAll Connection.isPrefix_flush input conn (List.prefix_refl _)
  · refine List.IsPrefix.trans ?_ (written_outcomeBehind ..)
    exact @Connection.keeps_drain _ _ _ (conn.writer.written <+: ·.written)
      Connection.isPrefix_writeAll Connection.isPrefix_flush _ _ _ conn (List.prefix_refl _)
  · exact written_outcomeBehind input (.done madeProgress conn)

end Loop

/-! ## Both connections step by step -/

namespace Channel

variable {W : Type} {S : Type u} {wire : Wire UInt8 W} {target : Target} {serve : Serve S}
  {chan : Channel W S} {conn : Connection S}

/-- The same bytes are waiting and the same commands were executed, and the writer
accounts for all replies. -/
structure Mirrors (wire : Wire UInt8 W) (chan : Channel W S) (conn : Connection S) : Prop where
  buf : chan.buf = conn.buf
  state : chan.state = conn.state
  accounts : wire.Accounts chan.writer conn.writer.written

theorem Mirrors.reply (laws : wire.Laws) (mirrors : chan.Mirrors wire conn) (resp : RespType) :
    let wrote := chan.reply wire resp
    wrote.2.Mirrors wire (conn.reply resp) ∧ (wrote.1 = false → wire.broken wrote.2.writer) := by
  let P : Bool × W → List UInt8 → Prop := fun w bytes =>
    wire.Accounts w.2 bytes ∧ (w.1 = false → wire.broken w.2)
  have keeps : ∀ {data w bytes}, P w bytes →
      P (if w.1 then wire.writeAll data w.2 else w) (bytes ++ data) := by
    rintro data ⟨_ | _, w⟩ bytes ⟨accounts, failed⟩
    · exact ⟨accounts.append (failed rfl) data, failed⟩
    · exact ⟨(laws.writeAll_moves data w).accounts accounts, laws.writeAll_reports data w⟩
  have start : P (true, chan.writer) conn.writer.written := ⟨mirrors.accounts, by rintro ⟨⟩⟩
  rcases RespType.writeTo_invariant keeps resp start with ⟨accounts, failed⟩
  rw [← Connection.written_reply] at accounts
  exact ⟨⟨mirrors.buf, mirrors.state, accounts⟩, failed⟩

/-- It does not matter whether the other socket has been sent its replies. -/
theorem Mirrors.flush_right (mirrors : chan.Mirrors wire conn) : chan.Mirrors wire conn.flush :=
  ⟨mirrors.buf, mirrors.state, (BufWriter.written_flush conn.writer).symm ▸ mirrors.accounts⟩

theorem Mirrors.flush (laws : wire.Laws) (mirrors : chan.Mirrors wire conn) :
    (chan.flush wire).2.Mirrors wire conn :=
  ⟨mirrors.buf, mirrors.state, laws.accounts_flush mirrors.accounts⟩

/-- A round of the loop over the frames does what it does with a socket that does not
fail, or answers a frame as it does there and finds that the socket has failed. -/
def FollowsTurn (wire : Wire UInt8 W) :
    Except (Cut (Channel W S)) (Turn (Channel W S)) → Turn (Connection S) → Prop
  | .ok (.again count chan), .again count' conn => count = count' ∧ chan.Mirrors wire conn
  | .ok .waiting, .waiting => True
  | .ok (.cleared chan), .cleared conn => chan.Mirrors wire conn
  | .ok (.panicked chan), .panicked conn => chan.Mirrors wire conn
  | .error cut, .again _ conn => cut.chan.Mirrors wire conn ∧ wire.broken cut.chan.writer
  | _, _ => False

theorem follows_frame (laws : wire.Laws) (target : Target) (serve : Serve S) (pipelineCount : ℕ)
    (mirrors : chan.Mirrors wire conn) :
    FollowsTurn wire ((host wire target serve).frame pipelineCount chan)
      (Connection.frame target serve pipelineCount conn) := by
  have buf : chan.buf = conn.buf := mirrors.buf
  have state : chan.state = conn.state := mirrors.state
  rw [Connection.frame_eq, Host.frame, buf, state]
  dsimp only [host]
  by_cases empty : conn.buf = []
  · rw [if_pos empty, if_pos empty]
    trivial
  rw [if_neg empty, if_neg empty]
  cases Parser.parse target conn.buf with
  | ok accepted =>
      rcases accepted with ⟨resp, consumed⟩
      dsimp only
      cases serve resp conn.state with
      | mk outcome state' =>
      have next : Mirrors wire ⟨conn.buf.drop consumed, chan.writer, state'⟩
          (⟨conn.buf.drop consumed, conn.writer, state'⟩ : Connection S) :=
        ⟨rfl, rfl, mirrors.accounts⟩
      cases outcome with
      | ok res =>
          rcases next.reply laws res with ⟨replied, failed⟩
          change FollowsTurn wire (do
            let chan ← orCut .aborted (reply wire ⟨conn.buf.drop consumed, chan.writer, state'⟩ res)
            if maxPipelineDepth ≤ pipelineCount + 1 then
              return .again 0 (← orCut .left (flush wire chan))
            else
              return .again (pipelineCount + 1) chan) _
          generalize reply wire ⟨conn.buf.drop consumed, chan.writer, state'⟩ res = wrote
            at replied failed ⊢
          rcases wrote with ⟨_ | _, chan'⟩
          · dsimp only
            split
            · exact ⟨replied.flush_right, failed rfl⟩
            · exact ⟨replied, failed rfl⟩
          · by_cases deep : maxPipelineDepth ≤ pipelineCount + 1
            · have flushed := (replied.flush laws).flush_right
              have failed := laws.flush_reports chan'.writer
              change (flush wire chan').1 = false →
                wire.broken (flush wire chan').2.writer at failed
              simp only [if_pos deep]
              change FollowsTurn wire (orCut .left (flush wire chan') >>= fun chan =>
                return .again 0 chan) _
              generalize flush wire chan' = sent at flushed failed ⊢
              rcases sent with ⟨_ | _, chan''⟩
              · exact ⟨flushed, failed rfl⟩
              · exact ⟨rfl, flushed⟩
            · simp only [if_neg deep]
              exact ⟨rfl, replied⟩
      | error e => exact ⟨rfl, (next.reply laws (.simpleError e)).1⟩
      | panic => exact next
  | error reason =>
      cases reason with
      | incomplete => trivial
      | invalid message =>
          have cleared := ((mirrors.reply laws (.simpleError message)).1.flush laws).flush_right
          exact ⟨rfl, cleared.state, cleared.accounts⟩
  | panic => exact mirrors

/-- A loop has followed the one with a socket that does not fail, up to a point behind it
or up to a failure. -/
def Follows (wire : Wire UInt8 W) (target : Target) (serve : Serve S) (start : Loop S)
    (point : Bool → Point) : Except (Cut (Channel W S)) (Pass (Channel W S)) → Prop
  | .ok (.done madeProgress chan) => ∃ conn, chan.Mirrors wire conn ∧
      Loop.Passes target serve start ⟨point madeProgress, conn, start.input⟩
  | .ok (.panicked chan) => ∃ loop conn, chan.Mirrors wire conn ∧
      Loop.Passes target serve start loop ∧ loop.step target serve = .inl (.panicked, conn)
  | .error cut => ∃ loop, cut.chan.Mirrors wire loop.conn ∧
      Loop.Passes target serve start loop ∧ wire.broken cut.chan.writer

theorem Follows.of_goes {start next : Loop S} {point : Bool → Point}
    {pass : Except (Cut (Channel W S)) (Pass (Channel W S))}
    (goes : Loop.Goes target serve start next) (same : next.input = start.input)
    (follows : Follows wire target serve next point pass) :
    Follows wire target serve start point pass := by
  rcases pass with cut | ⟨madeProgress, chan⟩ | chan
  · rcases follows with ⟨loop, mirrors, passes, broken⟩
    exact ⟨loop, mirrors, passes.head goes, broken⟩
  · rcases follows with ⟨conn, mirrors, passes⟩
    exact ⟨conn, mirrors, same ▸ passes.head goes⟩
  · rcases follows with ⟨loop, conn, mirrors, passes, ends⟩
    exact ⟨loop, conn, mirrors, passes.head goes, ends⟩

theorem follows_drain (laws : wire.Laws) {fuel pipelineCount : ℕ} {madeProgress : Bool}
    {input : List ReadEvent} (enough : conn.buf.length ≤ fuel)
    (mirrors : chan.Mirrors wire conn) :
    Follows wire target serve ⟨.inner pipelineCount madeProgress, conn, input⟩ .behind
      ((host wire target serve).drain fuel pipelineCount madeProgress chan) := by
  induction fuel generalizing pipelineCount madeProgress chan conn with
  | zero =>
      refine ⟨conn, mirrors, .single ⟨Mark.idle, ?_⟩⟩
      have empty := List.eq_nil_of_length_eq_zero (Nat.le_zero.mp enough)
      simp only [Loop.step, Loop.frameStep, Connection.frame_eq, if_pos empty]
      rfl
  | succ fuel ih =>
      have turn := follows_frame laws target serve pipelineCount mirrors
      rw [Host.drain]
      cases smooth : Connection.frame target serve pipelineCount conn with
      | again count conn' =>
          have goes : Loop.Goes target serve ⟨.inner pipelineCount madeProgress, conn, input⟩
              ⟨.inner count true, conn', input⟩ := by
            refine ⟨⟨false, true, true⟩, ?_⟩
            simp only [Loop.step, Loop.frameStep, smooth]
            rfl
          refine Follows.of_goes goes rfl ?_
          rw [smooth] at turn
          generalize (host wire target serve).frame pipelineCount chan = here at turn ⊢
          rcases here with cut | ⟨_, chan'⟩ | _ | chan' | chan'
          · exact ⟨_, turn.1, .refl, turn.2⟩
          · rcases turn with ⟨rfl, mirrors'⟩
            have shorter := Loop.length_of_again smooth
            exact ih (by omega) mirrors'
          all_goals exact turn.elim
      | waiting =>
          have goes : Loop.Goes target serve ⟨.inner pipelineCount madeProgress, conn, input⟩
              ⟨.behind madeProgress, conn, input⟩ := by
            refine ⟨Mark.idle, ?_⟩
            simp only [Loop.step, Loop.frameStep, smooth]
            rfl
          rw [smooth] at turn
          generalize (host wire target serve).frame pipelineCount chan = here at turn ⊢
          rcases here with cut | ⟨_, chan'⟩ | _ | chan' | chan'
          case ok.waiting => exact ⟨conn, mirrors, .single goes⟩
          all_goals exact turn.elim
      | cleared conn' =>
          have goes : Loop.Goes target serve ⟨.inner pipelineCount madeProgress, conn, input⟩
              ⟨.behind madeProgress, conn', input⟩ := by
            refine ⟨⟨false, false, true⟩, ?_⟩
            simp only [Loop.step, Loop.frameStep, smooth]
            rfl
          rw [smooth] at turn
          generalize (host wire target serve).frame pipelineCount chan = here at turn ⊢
          rcases here with cut | ⟨_, chan'⟩ | _ | chan' | chan'
          case ok.cleared => exact ⟨conn', turn, .single goes⟩
          all_goals exact turn.elim
      | panicked conn' =>
          have ends : Loop.step target serve ⟨.inner pipelineCount madeProgress, conn, input⟩ =
              .inl (.panicked, conn') := by
            simp only [Loop.step, Loop.frameStep, smooth]
            rfl
          rw [smooth] at turn
          generalize (host wire target serve).frame pipelineCount chan = here at turn ⊢
          rcases here with cut | ⟨_, chan'⟩ | _ | chan' | chan'
          case ok.panicked => exact ⟨_, conn', turn, .refl, ends⟩
          all_goals exact turn.elim

/-- Behind the loop over the frames. -/
theorem goes_of_behind (madeProgress : Bool) (conn : Connection S) (input : List ReadEvent)
    (mirrors : chan.Mirrors wire conn) :
    ∃ conn', chan.Mirrors wire conn' ∧
      Loop.Goes target serve ⟨.behind madeProgress, conn, input⟩ ⟨.outer, conn', input⟩ := by
  by_cases sends : madeProgress ∧ conn.writer.buffer ≠ []
  · refine ⟨conn.flush, mirrors.flush_right, ⟨false, false, true⟩, ?_⟩
    simp only [Loop.step, Loop.leaveStep, if_pos sends]
  · refine ⟨conn, mirrors, Mark.idle, ?_⟩
    simp only [Loop.step, Loop.leaveStep, if_neg sends]

theorem follows_serveBuffered (laws : wire.Laws) (target : Target) (serve : Serve S)
    (input : List ReadEvent) (mirrors : chan.Mirrors wire conn) :
    Follows wire target serve ⟨.inner 0 false, conn, input⟩ (fun _ => .outer)
      ((host wire target serve).serveBuffered chan) := by
  have buf : chan.buf = conn.buf := mirrors.buf
  have follows : Follows wire target serve ⟨.inner 0 false, conn, input⟩ .behind _ :=
    follows_drain laws (Nat.le_refl _) mirrors
  rw [Host.serveBuffered, buf]
  generalize (host wire target serve).drain conn.buf.length 0 false chan = pass at follows ⊢
  rcases pass with cut | ⟨madeProgress, chan'⟩ | chan'
  · exact follows
  · rcases follows with ⟨conn', mirrors', passes⟩
    rcases goes_of_behind madeProgress conn' input mirrors' with ⟨conn'', mirrors'', goes⟩
    change Follows wire target serve _ _
      (if madeProgress ∧ (host wire target serve).buffered chan'.writer then
        orCut .aborted (flush wire chan') >>= fun chan => return .done madeProgress chan
      else
        return .done madeProgress chan')
    split
    · have flushed := mirrors''.flush laws
      have failed := laws.flush_reports chan'.writer
      change (flush wire chan').1 = false → wire.broken (flush wire chan').2.writer at failed
      generalize flush wire chan' = sent at flushed failed ⊢
      rcases sent with ⟨_ | _, chan''⟩
      · exact ⟨⟨.outer, conn'', input⟩, flushed, passes.tail goes, failed rfl⟩
      · exact ⟨conn'', flushed, passes.tail goes⟩
    · exact ⟨conn'', mirrors'', passes.tail goes⟩
  · exact follows

/-- The connection has gone through as with a socket that does not fail, or the socket has
failed on the way. -/
def Finishes (wire : Wire UInt8 W) (target : Target) (serve : Serve S) (start : Loop S)
    (ended : Parting × Channel W S) : Prop :=
  ∃ loop, Loop.Passes target serve start loop ∧
    ((∃ exit conn, loop.step target serve = .inl (exit, conn) ∧ ended.2.Mirrors wire conn ∧
      ended.1 = .ended exit ∧
        (exit = .closed → wire.buffer ended.2.writer = [] ∨ wire.broken ended.2.writer)) ∨
      ended.2.Mirrors wire loop.conn ∧ wire.broken ended.2.writer)

theorem Finishes.of_passes {start next : Loop S} {ended : Parting × Channel W S}
    (passes : Loop.Passes target serve start next)
    (finishes : Finishes wire target serve next ended) :
    Finishes wire target serve start ended := by
  rcases finishes with ⟨loop, further, outcome⟩
  exact ⟨loop, passes.trans further, outcome⟩

/-- The end of the outer loop. -/
theorem finishes_closed (laws : wire.Laws) {input : List ReadEvent}
    (mirrors : chan.Mirrors wire conn)
    (ends : Loop.step target serve ⟨.outer, conn, input⟩ = .inl (.closed, conn.flush)) :
    Finishes wire target serve ⟨.outer, conn, input⟩ (.ended .closed, (chan.flush wire).2) := by
  have flushed := (mirrors.flush laws).flush_right
  refine ⟨_, .refl, Or.inl ⟨_, _, ends, flushed, rfl, fun _ => ?_⟩⟩
  cases outcome : (chan.flush wire).1 with
  | true => exact Or.inl (laws.flush_empties _ outcome)
  | false => exact Or.inr (laws.flush_reports _ outcome)

theorem Mirrors.receive (mirrors : chan.Mirrors wire conn) (event : ReadEvent) :
    (chan.receive event = none ∧ conn.receive event = none) ∨
      ∃ chan' conn', chan.receive event = some chan' ∧ conn.receive event = some conn' ∧
        Mirrors wire chan' conn' := by
  rcases event with (_ | ⟨byte, chunk⟩) | _ | _
  · exact Or.inl ⟨rfl, rfl⟩
  · refine Or.inr ⟨_, _, rfl, rfl, ?_, mirrors.state, mirrors.accounts⟩
    exact congrArg (· ++ byte :: chunk) mirrors.buf
  · exact Or.inr ⟨_, _, rfl, rfl, mirrors⟩
  · exact Or.inl ⟨rfl, rfl⟩

theorem finishes_handle (laws : wire.Laws) (events : List ReadEvent)
    (mirrors : chan.Mirrors wire conn) :
    Finishes wire target serve ⟨.outer, conn, events⟩
      (parting wire ((host wire target serve).handle events chan)) := by
  induction events generalizing chan conn with
  | nil => exact finishes_closed laws mirrors rfl
  | cons event events ih =>
      have buf : chan.buf = conn.buf := mirrors.buf
      rw [Host.handle, buf]
      by_cases waits : conn.buf = [] ∧ event = .wouldBlock
      · rw [if_pos waits]
        refine (ih mirrors).of_passes (.single ⟨⟨false, false, true⟩, ?_⟩)
        simp only [Loop.step, Loop.readStep, if_pos waits]
      rw [if_neg waits]
      rcases mirrors.receive event with ⟨none, none'⟩ | ⟨chan', conn', got, got', received⟩
      · rw [none]
        apply finishes_closed laws mirrors
        simp only [Loop.step, Loop.readStep, if_neg waits, none']
      · have goes : Loop.Goes target serve ⟨.outer, conn, event :: events⟩
            ⟨.inner 0 false, conn', events⟩ := by
          refine ⟨⟨event ≠ .wouldBlock, false, conn.buf = []⟩, ?_⟩
          simp only [Loop.step, Loop.readStep, if_neg waits, got']
        have follows := follows_serveBuffered laws target serve events received
        rw [got]
        dsimp only
        generalize (host wire target serve).serveBuffered chan' = pass at follows ⊢
        rcases pass with (chan'' | chan'') | ⟨madeProgress, chan''⟩ | chan''
        · rcases follows with ⟨loop, mirrors'', passes, broken⟩
          have still := ((laws.flush_moves _).final broken).1
          exact ⟨loop, passes.head goes, Or.inr ⟨mirrors''.flush laws, still⟩⟩
        · rcases follows with ⟨loop, mirrors'', passes, broken⟩
          exact ⟨loop, passes.head goes, Or.inr ⟨mirrors'', broken⟩⟩
        · rcases follows with ⟨conn'', mirrors'', passes⟩
          exact (ih mirrors'').of_passes (passes.head goes)
        · rcases follows with ⟨loop, conn'', mirrors'', passes, ends⟩
          exact ⟨loop, passes.head goes, Or.inl ⟨_, _, ends, mirrors'', rfl, by rintro ⟨⟩⟩⟩

end Channel

/-- A connection whose socket fails at some point, and then for good.  It ends in a state
that it passes through with a socket that does not fail, so that the commands it has
executed are the first ones of those executed there.  Its client has received a beginning
of the replies written up to this point.  If the socket has not failed, the connection has
come to the same end, and has written the same replies. -/
theorem failing_socket_cuts_off {W : Type} {S : Type u} (wire : Wire UInt8 W) (laws : wire.Laws)
    (spill : Spill UInt8) (target : Target) (serve : Serve S) (state : S)
    (events : List ReadEvent) :
    let ended := Channel.handle wire target serve events (Channel.new wire state)
    let smooth := Connection.handle target serve events (Connection.new spill state)
    (∃ conn, Loop.Visits target serve ⟨.outer, Connection.new spill state, events⟩ conn ∧
      ended.2.state = conn.state ∧ wire.received ended.2.writer <+: conn.writer.written ∧
      conn.writer.written <+: smooth.2.writer.written) ∧
    (¬wire.broken ended.2.writer →
      ended.1 = .ended smooth.1 ∧ ended.2.state = smooth.2.state ∧ ended.2.buf = smooth.2.buf ∧
      wire.received ended.2.writer ++ wire.buffer ended.2.writer = smooth.2.writer.written ∧
      (smooth.1 = .closed → wire.buffer ended.2.writer = [])) := by
  intro ended smooth
  have mirrors : (Channel.new wire state).Mirrors wire (Connection.new spill state) :=
    ⟨rfl, rfl, laws.accounts_new⟩
  have finishes : Channel.Finishes wire target serve
      ⟨.outer, Connection.new spill state, events⟩ ended :=
    Channel.finishes_handle laws events mirrors
  rcases finishes with ⟨loop, passes, through | ⟨mirrors', broken⟩⟩
  · rcases through with ⟨exit, conn, ends, mirrors', parting, empty⟩
    have final : smooth = (exit, conn) := passes.outcome_of_end ends
    rw [final]
    refine ⟨⟨conn, ⟨loop, passes, Or.inr ⟨exit, ends⟩⟩, mirrors'.state,
      mirrors'.accounts.received_isPrefix, List.prefix_refl _⟩, fun works => ?_⟩
    refine ⟨parting, mirrors'.state, mirrors'.buf, mirrors'.accounts.eq_of_works works, ?_⟩
    intro closed
    rcases empty closed with sent | broken
    · exact sent
    · exact absurd broken works
  · have later : loop.conn.writer.written <+: (loop.outcome target serve).2.writer.written :=
      loop.written_outcome
    rw [← passes.outcome_eq] at later
    exact ⟨⟨loop.conn, ⟨loop, passes, Or.inl rfl⟩, mirrors'.state,
      mirrors'.accounts.received_isPrefix, later⟩, fun works => absurd broken works⟩

/-- Two replies over a socket that takes three bytes and then fails, and over one that
takes everything. -/
theorem failing_socket_cuts_off_ping :
    let serve := Client.serve ⟨true, 24⟩ fun _ => 0
    let state : Session := ⟨Client.new, ⟨∅, ∅⟩, 0⟩
    let events := [ReadEvent.bytes (utf8Bytes "PING\r\nFOO\r\n")]
    let breaks : Wire UInt8 _ := Wire.upTo 3
    let works : Wire UInt8 _ := Wire.unfailing fun _ _ _ => 1
    let broken := Channel.handle breaks ⟨true, 24⟩ serve events (Channel.new breaks state)
    let whole := Channel.handle works ⟨true, 24⟩ serve events (Channel.new works state)
    let smooth := Connection.handle ⟨true, 24⟩ serve events (Connection.new .atFlush state)
    broken.1 = .aborted ∧ breaks.received broken.2.writer = utf8Bytes "+Po" ∧
      utf8Bytes "+Po" <+: smooth.2.writer.written ∧ whole.1 = .ended smooth.1 ∧
      works.received whole.2.writer ++ works.buffer whole.2.writer =
        smooth.2.writer.written := by
  intro serve state events breaks works broken whole smooth
  have aborted : broken.1 = .aborted := by decide +kernel
  have received : breaks.received broken.2.writer = utf8Bytes "+Po" := by decide +kernel
  rcases failing_socket_cuts_off breaks (Wire.laws_upTo 3) .atFlush ⟨true, 24⟩ serve state events
    with ⟨⟨conn, -, -, taken, later⟩, -⟩
  have front := taken.trans later
  rw [received] at front
  rcases failing_socket_cuts_off works (Wire.laws_unfailing _) .atFlush ⟨true, 24⟩ serve state
    events with ⟨-, going⟩
  rcases going id with ⟨parting, -, -, sent, -⟩
  exact ⟨aborted, received, front, parting, sent⟩

end Ember
