import CallPath.Stack.Basic

/-!
# Rendering a stack

A rendered stack is a header line and then one line per frame, topmost first,
each opened by a tab. The text is written piece by piece into a sink, and two
things can stop it: a sink that is full, and a frame that refuses to say what it
is. Writing stops for good at the first of them, and what the sink holds by then
stays there.

A sink counts bytes and takes characters: it takes whole characters up to the
first one that would not fit.
-/

namespace CallPath

/-- Where text is written to. -/
structure Sink where
  /-- How many bytes the sink holds at most; absent for no bound. -/
  capacity : Option Nat := none
  /-- What was written so far. -/
  text : String := ""
  deriving DecidableEq

/-- The characters from the front of a text that fit into `room` bytes, up to the
first one that does not, and whether these are all. -/
def fit : Nat → List Char → List Char × Bool
  | _, [] => ([], true)
  | room, c :: cs =>
      if c.utf8Size ≤ room then (c :: (fit (room - c.utf8Size) cs).1, (fit (room - c.utf8Size) cs).2)
      else ([], false)

namespace Sink

/-- Writes a text as far as it fits, and tells whether all of it did. -/
def write (sink : Sink) (text : String) : Sink × Bool :=
  match sink.capacity with
  | none => ({ sink with text := sink.text ++ text }, true)
  | some capacity =>
      let taken := fit (capacity - sink.text.utf8ByteSize) text.toList
      ({ sink with text := sink.text ++ String.ofList taken.1 }, taken.2)

/-- Writes pieces in order. A piece may be missing, because whatever was to be
shown there failed; writing stops there, and at the first piece that does not fit. -/
def writeAll (sink : Sink) : List (Option String) → Sink × Bool
  | [] => (sink, true)
  | none :: _ => (sink, false)
  | some text :: rest =>
      match sink.write text with
      | (next, true) => next.writeAll rest
      | (next, false) => (next, false)

end Sink

namespace Stack

variable {φ : Type}

/-- The line above the frames. -/
def header : String := "CallStack:\n"

/-- What is written for a stack whose frames are shown by `text`. -/
def pieces (text : φ → Option String) (s : Stack φ) : List (Option String) :=
  some header :: s.toList.flatMap (fun frame => [some "\t", text frame, some "\n"])

/-- Writes the stack into a sink and tells whether all of it was written. -/
def renderInto (text : φ → Option String) (s : Stack φ) (sink : Sink) : Sink × Bool :=
  sink.writeAll (s.pieces text)

/-- The whole text of the stack, if every frame has one. -/
def render? (text : φ → Option String) (s : Stack φ) : Option String :=
  match s.renderInto text {} with
  | (sink, true) => some sink.text
  | (_, false) => none

end Stack

end CallPath
