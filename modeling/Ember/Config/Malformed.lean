import Ember.Config.Segmentation
import Ember.Resp.RoundTrip

/-!
# Segmentation of streams with malformed frames

Malformed bytes are thrown away with whatever was read together with them, so that what
follows them in the stream may be executed or not.  The reads make no difference for
exactly two kinds of streams with a malformed frame: those with a frame before it that
panics, and those in which nothing follows it but the beginning of a frame, wherever the
read ends in which it was found.
-/

namespace Ember

open Ember.Base Ember.Base.Framing Ember.Database Ember.Resp

universe u

/-- The replies to frames that are executed one after the other, and the state.  A frame
that panics is the last one, and has no reply. -/
def executed {S : Type u} (serve : Serve S) : List RespType → S → List RespType × S
  | [], state => ([], state)
  | frame :: frames, state =>
      match answer (serve frame state).1 with
      | some reply =>
          (reply :: (executed serve frames (serve frame state).2).1,
            (executed serve frames (serve frame state).2).2)
      | none => ([], (serve frame state).2)

section Executed

variable {S : Type u} {serve : Serve S} {state middle : S} {first second : List RespType}
  {replies : List RespType}

end Executed

/-! ## Frames that panic -/

namespace Connection

variable {S : Type u} {target : Target} {serve : Serve S}

end Connection

/-! ## Sections of a stream with a malformed frame -/

section Sections

variable {target : Target} {events : List ReadEvent} {pending rest : List UInt8}

end Sections

section Settle

variable {S : Type u} {target : Target} {serve : Serve S} {s s' : Served S}

end Settle

namespace Connection

variable {S : Type u} {target : Target} {serve : Serve S}

section Deliveries

variable {spill : Spill UInt8} {stream : List UInt8} {events : List ReadEvent}
  {replies : List RespType} {state state' : S} {message : String}
  (answered : answers serve (unframe (Parser.parse target) stream).1 state =
    some (replies, state'))
  (invalid : Parser.parse target (unframe (Parser.parse target) stream).2 =
    .error (.invalid message))

include answered invalid

end Deliveries

end Connection

end Ember
