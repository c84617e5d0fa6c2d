import CallPath.Call
import CallPath.Program
import CallPath.Session.Frame

/-!
# Steps of a session

What a session leaves behind is a list of steps: which command ran, what it came
to, and what the current stack looked like right after it, together with the events
that were logged since the step before.
-/

namespace CallPath

/-- What a command came to. -/
inductive Result where
  | nothing
  | done
  /-- The command makes no sense here. -/
  | rejected
  | fault (fault : Fault)
  | frame (frame : Frame)
  /-- A frame looked at, if it is there. -/
  | seen (frame : Option Frame)
  | frames (frames : List Frame)
  /-- Frames popped, and the fault that stopped it. -/
  | popped (frames : List Frame) (fault : Option Fault)
  /-- A frame with its name, and whether it is the sentinel. -/
  | described (frame : Frame) (name : String) (isNative : Bool)
  | flags (first second : Bool)
  | depth (depth : Nat) (isEmpty : Bool)
  | number (n : Nat)
  | walked (answers : List (CursorAnswer Frame))
  | text (text : String)
  /-- A text cut where the sink was full, and whether it is whole. -/
  | rendered (whole : Bool) (text : String)
  /-- A limit, whether it is the default one, whether it is no limit, and its text. -/
  | limit (limit : Limit) (isDefault isUnbounded : Bool) (text : String)
  | value (value : Option Int)
  | native
  /-- A fault, whether a clone equals it, and whether another one does. -/
  | compared (fault : Fault) (clone : Bool) (other : Option Bool)
  /-- A rendered stack, taken where the script failed. -/
  | trace (text : String)
  /-- How a body ended, and the depth at its end. -/
  | left (outcome : Outcome) (depth : Nat)
  /-- How a body ended that nothing had to be left for. -/
  | caught (outcome : Outcome)

/-- One step of a session. -/
structure Step where
  name : String
  result : Result
  /-- The depth of the current stack afterwards. -/
  depth : Nat
  /-- Its first frames from the top, at most `Step.shown` of them. -/
  top : List Frame
  events : List Event

/-- How many frames a step shows. -/
def Step.shown : Nat := 8

end CallPath
