import CallPath.Event
import CallPath.Stack.Cursor

/-!
# Calls on a stack

A call is a request to a stack, made into data so that sequences of them can be
run, compared and reasoned about. Its reply has four parts: the answer that the
caller sees, the stack afterwards, what went into the log, and what happened to
the handles of frames.

The last part is bookkeeping that no answer shows, and it is where a frame leaks
or is given up too early. Frames are shared: a stack holds a handle to each of its
frames, and so does everyone who was given one. A call receives the handles in its
arguments and hands over those in its answer; `Effect.cloned` lists the handles it
made in between and `Effect.dropped` those it gave up.
-/

namespace CallPath

/-- Which frames a cursor runs over. -/
inductive Source where
  | whole
  | callers
  deriving DecidableEq

/-- A call on one stack. -/
inductive Call (φ : Type) where
  | push (frame : φ)
  | pop
  | swap (frame : φ)
  | set (level : Nat) (frame : φ)
  | clear
  | get (level : Nat)
  | top
  | frame (level : Nat)
  | isNative (frame : φ)
  | depth
  | limit
  | list
  | iterate (source : Source) (calls : List CursorCall)
  | copy
  /-- Puts another stack in the place of this one. -/
  | replace (next : Stack φ)

/-- What a caller sees of a call. -/
inductive Answer (φ : Type) where
  | done
  | frame (frame : φ)
  /-- A frame that is only looked at. -/
  | seen (frame : Option φ)
  | flag (value : Bool)
  | depth (depth : Nat) (isEmpty : Bool)
  | limit (limit : Limit)
  /-- Handles to frames, for the caller to keep. -/
  | frames (frames : List φ)
  | steps (answers : List (CursorAnswer φ))
  /-- A stack of its own, for the caller to keep. -/
  | stack (stack : Stack φ)
  | fault (fault : Fault)

/-- What a call does besides answering. -/
structure Effect (φ : Type) where
  /-- What it logs, in order. -/
  events : List Event := []
  /-- The handles it makes. -/
  cloned : List φ := []
  /-- The handles it gives up. -/
  dropped : List φ := []

structure Reply (φ : Type) where
  answer : Answer φ
  stack : Stack φ
  effect : Effect φ := {}

variable {φ : Type}

/-- The handles that a call receives. The frame that `isNative` asks about is only
looked at. -/
def Call.given : Call φ → List φ
  | .push f | .swap f | .set _ f => [f]
  | .replace next => next.toList
  | _ => []

/-- The handles that an answer hands over. -/
def Answer.kept : Answer φ → List φ
  | .frame f => [f]
  | .frames l => l
  | .stack s => s.toList
  | _ => []

def Answer.fault? : Answer φ → Option Fault
  | .fault f => some f
  | _ => none

def Source.cursor (s : Stack φ) : Source → Cursor φ
  | .whole => s.cursor
  | .callers => s.callers.cursor

namespace Stack

/-- Makes a call. A frame passed to a call that fails is given up, as is the frame
that a successful `set` replaces; one that `swap` replaces goes to the caller. -/
def call [Sentinel φ] [DecidableEq φ] (s : Stack φ) : Call φ → Reply φ
  | .push frame =>
      { answer := .done, stack := s.push frame
        effect := { events := [.pushed (s.push frame).depth] } }
  | .pop =>
      match s.pop? with
      | some (frame, rest) =>
          { answer := .frame frame, stack := rest, effect := { events := [.popped rest.depth] } }
      | none =>
          { answer := .fault (.emptyStack "pop"), stack := s, effect := { events := [.popOnEmpty] } }
  | .swap frame =>
      match s.swap? frame with
      | some (old, next) =>
          { answer := .frame old, stack := next, effect := { events := [.swapped next.depth] } }
      | none =>
          { answer := .fault (.emptyStack "swap"), stack := s
            effect := { events := [.swapOnEmpty], dropped := [frame] } }
  | .set level frame =>
      match s.set? level frame with
      | some (old, next) =>
          { answer := .done, stack := next
            effect := { events := [.replaced level], dropped := [old] } }
      | none =>
          -- a write below the bottom is refused, where a read would find native code
          { answer := .fault (.outOfBounds level s.depth), stack := s
            effect := { events := [.setOutOfBounds level s.depth], dropped := [frame] } }
  | .clear =>
      { answer := .done, stack := s.clear
        effect := { events := [.cleared], dropped := s.toList } }
  | .get level => { answer := .frame (s.get level), stack := s, effect := { cloned := [s.get level] } }
  | .top => { answer := .frame s.top, stack := s, effect := { cloned := [s.top] } }
  | .frame level => { answer := .seen (s.frame? level), stack := s }
  | .isNative frame => { answer := .flag (s.isNative frame), stack := s }
  | .depth => { answer := .depth s.depth s.isEmpty, stack := s }
  | .limit => { answer := .limit s.limit, stack := s }
  | .list => { answer := .frames s.toList, stack := s, effect := { cloned := s.toList } }
  | .iterate source calls => { answer := .steps ((source.cursor s).run calls), stack := s }
  | .copy => { answer := .stack s, stack := s, effect := { cloned := s.toList } }
  | .replace next => { answer := .stack s, stack := next }

/-! ## The calls that can be refused -/

section

variable [Sentinel φ] [DecidableEq φ] {s rest : Stack φ} {frame old : φ} {level : Nat}

theorem call_pop_of_some (h : s.pop? = some (frame, rest)) :
    s.call .pop =
      { answer := .frame frame, stack := rest, effect := { events := [.popped rest.depth] } } := by
  simp only [call, h]

theorem call_pop_of_none (h : s.pop? = none) :
    s.call .pop =
      { answer := .fault (.emptyStack "pop"), stack := s
        effect := { events := [.popOnEmpty] } } := by
  simp only [call, h]

theorem call_swap_of_some (h : s.swap? frame = some (old, rest)) :
    s.call (.swap frame) =
      { answer := .frame old, stack := rest, effect := { events := [.swapped rest.depth] } } := by
  simp only [call, h]

theorem call_swap_of_none (h : s.swap? frame = none) :
    s.call (.swap frame) =
      { answer := .fault (.emptyStack "swap"), stack := s
        effect := { events := [.swapOnEmpty], dropped := [frame] } } := by
  simp only [call, h]

theorem call_set_of_some (h : s.set? level frame = some (old, rest)) :
    s.call (.set level frame) =
      { answer := .done, stack := rest
        effect := { events := [.replaced level], dropped := [old] } } := by
  simp only [call, h]

theorem call_set_of_none (h : s.set? level frame = none) :
    s.call (.set level frame) =
      { answer := .fault (.outOfBounds level s.depth), stack := s
        effect := { events := [.setOutOfBounds level s.depth], dropped := [frame] } } := by
  simp only [call, h]

end

/-! ## What a call leaves on the stack

A call that is refused leaves everything, and what it would have done comes to nothing on a
list: there is no tail to take off an empty one, and no level to write past its end. -/

section

variable [Sentinel φ] [DecidableEq φ] {s : Stack φ}

theorem toList_call_pop (s : Stack φ) : (s.call .pop).stack.toList = s.toList.tail := by
  cases hs : s.pop? with
  | none =>
      rw [call_pop_of_none hs, pop?_eq_none.mp hs]
      rfl
  | some popped =>
      rw [call_pop_of_some hs, (pop?_eq_some.mp hs).1]
      rfl

theorem toList_call_set (s : Stack φ) (level : Nat) (frame : φ) :
    (s.call (.set level frame)).stack.toList = s.toList.set level frame := by
  cases hs : s.set? level frame with
  | none =>
      rw [call_set_of_none hs]
      exact (List.set_eq_of_length_le (set?_eq_none.mp hs)).symm
  | some written =>
      rw [call_set_of_some hs]
      exact (set?_eq_some.mp hs).2.1

theorem toList_call_swap (s : Stack φ) (frame : φ) :
    (s.call (.swap frame)).stack.toList = s.toList.set 0 frame := by
  cases hs : s.swap? frame with
  | none =>
      rw [call_swap_of_none hs]
      exact (List.set_eq_of_length_le (set?_eq_none.mp (swap?_eq s frame ▸ hs))).symm
  | some swapped =>
      rw [call_swap_of_some hs]
      exact (set?_eq_some.mp (swap?_eq s frame ▸ hs)).2.1

theorem depth_call_pop (s : Stack φ) : (s.call .pop).stack.depth = s.depth - 1 := by
  rw [← length_toList, toList_call_pop, List.length_tail, length_toList]

theorem depth_call_set (s : Stack φ) (level : Nat) (frame : φ) :
    (s.call (.set level frame)).stack.depth = s.depth := by
  rw [← length_toList, toList_call_set, List.length_set, length_toList]

theorem depth_call_swap (s : Stack φ) (frame : φ) :
    (s.call (.swap frame)).stack.depth = s.depth := by
  rw [← length_toList, toList_call_swap, List.length_set, length_toList]

theorem limit_call {c : Call φ} (whole : ∀ next, c ≠ .replace next) :
    (s.call c).stack.limit = s.limit := by
  cases c with
  | pop =>
      cases hp : s.pop? with
      | none => rw [call_pop_of_none hp]
      | some popped =>
          rw [call_pop_of_some hp]
          exact (pop?_eq_some.mp hp).2
  | swap frame =>
      cases hs : s.swap? frame with
      | none => rw [call_swap_of_none hs]
      | some swapped =>
          obtain ⟨below, -, -, limit⟩ := swap?_eq_some.mp hs
          rw [call_swap_of_some hs, limit]
  | set level frame =>
      cases hs : s.set? level frame with
      | none => rw [call_set_of_none hs]
      | some written =>
          rw [call_set_of_some hs]
          exact (set?_eq_some.mp hs).2.2
  | replace next => exact absurd rfl (whole next)
  | _ => rfl

end

end Stack

end CallPath
