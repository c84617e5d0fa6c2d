import CallPath.Machine
import CallPath.Session.Ledger
import CallPath.Session.Step

/-!
# The state of a session

A session has a current stack with its guards, the stacks that wait while another
one is current, and three tables: named stacks, saved lists of frames, and
variables. All of them hold handles to frames. Beside them stands the ledger, which
counts handles without looking at any of these.

Handles move in a few ways only, and each has a function here: an expression makes
one for the command to use, a call takes some and hands over others, a variable or
a table keeps one, and whatever is not kept is given up. `Session.holders` is the
other side of the books: for a frame, everybody who holds a handle to it.
-/

namespace CallPath

/-- Everything a session knows. -/
structure Session where
  registry : Registry := {}
  /-- How many handles to each frame are out. -/
  ledger : Ledger := {}
  machine : Machine Frame := { stack := .empty }
  /-- The machines that wait for the current one, innermost first. -/
  suspended : List (Machine Frame) := []
  named : Table (Stack Frame) := {}
  lists : Table (List Frame) := {}
  bound : Table Frame := {}
  /-- The events since the last step. -/
  log : List Event := []
  steps : Array Step := #[]

namespace Session

/-! ## Who holds a handle -/

/-- All handles that are held, wherever that is. -/
def handles (s : Session) : List Frame :=
  s.machine.handles ++ s.suspended.flatMap Machine.handles ++ s.named.values.flatMap Stack.toList
    ++ s.lists.values.flatten ++ s.bound.values

/-- How many handles to a frame are held. The sentinel's owner holds one more. -/
def holders (s : Session) (frame : Frame) : Nat :=
  s.handles.count frame + (if frame = .native then 1 else 0)

/-! ## How handles move -/

def retain (s : Session) (frames : List Frame) : Session :=
  { s with ledger := s.ledger.retainAll frames }

def release (s : Session) (frames : List Frame) : Session :=
  { s with ledger := s.ledger.releaseAll frames }

/-- What a call did besides answering goes into the log and the ledger. -/
def absorb (s : Session) (effect : Effect Frame) : Session :=
  ({ s with log := s.log ++ effect.events }.retain effect.cloned).release effect.dropped

def moved (s : Session) (t : Transition Frame) : Session :=
  { s with machine := t.machine }.absorb t.effect

def call (s : Session) (c : Call Frame) : Answer Frame × Session :=
  ((s.machine.call c).answer, s.moved (s.machine.call c))

/-- Creates a frame, whose only handle the running command holds. -/
def create (s : Session) (name : String) (mute : Bool := false) : Frame × Session :=
  (s.registry.upcoming,
    { s with registry := s.registry.create name mute, ledger := s.ledger.openAccount })

/-- Lets a variable hold the handle at hand, in the place of what it held. -/
def hold (s : Session) (name : String) (frame : Frame) : Session :=
  { s with bound := s.bound.insert name frame }.release
    (s.bound.find? name).toList

/-- Puts the stack at hand into the table, in the place of what was there. -/
def store (s : Session) (name : String) (stack : Stack Frame) : Session :=
  { s with named := s.named.insert name stack }.release
    (((s.named.find? name).map Stack.toList).getD [])

/-- Puts the list at hand into the table, in the place of what was there. -/
def saveList (s : Session) (name : String) (frames : List Frame) : Session :=
  { s with lists := s.lists.insert name frames }.release ((s.lists.find? name).getD [])

/-! ## Steps -/

def step (s : Session) (name : String) (result : Result) : Session :=
  let stack := s.machine.stack
  let step : Step :=
    { name, result, depth := stack.depth
      top := (List.range Step.shown).filterMap stack.frame?
      events := s.log }
  { s with log := [], steps := s.steps.push step }

end Session

end CallPath
