import CallPath.Fault

/-!
# The log

Every change of a stack announces itself, and so does every refusal. An event
carries the numbers that go into its line and nothing else, so a log can be read
back, replayed and compared without parsing text; `Event.line` is the only place
that spells a line out.
-/

namespace CallPath

/-- How loudly an event is announced. -/
inductive Level where
  | trace
  | debug
  | warn
  | error
  deriving DecidableEq

def Level.word : Level → String
  | .trace => "TRACE"
  | .debug => "DEBUG"
  | .warn => "WARN"
  | .error => "ERROR"

/-- One thing that happened to a stack. -/
inductive Event where
  /-- A frame was pushed; `depth` frames are there now. -/
  | pushed (depth : Nat)
  /-- The top was removed; `depth` frames are left. -/
  | popped (depth : Nat)
  /-- The top was exchanged on a stack of `depth` frames. -/
  | swapped (depth : Nat)
  /-- The frame at level `index` was replaced. -/
  | replaced (index : Nat)
  | cleared
  /-- The stack was cut; `depth` frames are left. -/
  | truncated (depth : Nat)
  /-- Entry at depth `depth` was refused under the limit `limit`. -/
  | refused (depth limit : Nat)
  | popOnEmpty
  | swapOnEmpty
  /-- Level `index` was to be replaced and only `depth` frames are there. -/
  | setOutOfBounds (index depth : Nat)
  /-- A guard was left at depth `depth` where `expected` frames should have been. -/
  | unbalanced (depth expected : Nat)
  /-- A guard that found the expected depth could not pop its frame. -/
  | guardPopFailed (fault : Fault)
  deriving DecidableEq

namespace Event

/-- Changes are traced, refused entries are for debugging, misuse warns and an
unbalanced guard is an error. -/
def level : Event → Level
  | pushed _ | popped _ | swapped _ | replaced _ | cleared | truncated _ => .trace
  | refused _ _ => .debug
  | popOnEmpty | swapOnEmpty | setOutOfBounds _ _ => .warn
  | unbalanced _ _ | guardPopFailed _ => .error

/-- What an event says, without its numbers. -/
def sentence : Event → String
  | pushed _ => "push frame"
  | popped _ => "pop frame"
  | swapped _ => "swap top frame"
  | replaced _ => "set frame"
  | cleared => "clear call stack"
  | truncated _ => "truncate call stack"
  | refused _ _ => "refusing to enter frame"
  | popOnEmpty => "pop on empty call stack"
  | swapOnEmpty => "swap on empty call stack"
  | setOutOfBounds _ _ => "set out of bounds"
  | unbalanced _ _ => "unbalanced call stack on guarded frame exit"
  | guardPopFailed _ => "failed to pop guarded frame"

/-- The named values of an event, in the order in which they are written. A
replaced frame is located by its level, under the name `depth`. -/
def fields : Event → List (String × String)
  | pushed depth | popped depth | swapped depth | truncated depth => [("depth", toString depth)]
  | replaced index => [("depth", toString index)]
  | cleared | popOnEmpty | swapOnEmpty => []
  | refused depth limit => [("depth", toString depth), ("max_depth", toString limit)]
  | setOutOfBounds index depth => [("index", toString index), ("depth", toString depth)]
  | unbalanced depth expected => [("depth", toString depth), ("expected", toString expected)]
  | guardPopFailed fault => [("error", fault.message)]

/-- The line of an event: its level, what it says, and its named values. -/
def line (e : Event) : String :=
  e.fields.foldl (fun text field => text ++ " " ++ field.1 ++ "=" ++ field.2)
    (e.level.word ++ " " ++ e.sentence)

end Event

end CallPath
