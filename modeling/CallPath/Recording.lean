import CallPath.Machine
import CallPath.Program

/-!
# Recorded runs on one stack

Here a program's acts are calls on one stack and its blocks are guarded entries, and
the run records each move with the machine it met and the transition it caused. A
recording therefore has every state of the run in it, those inside bodies too, and
a statement about "every point of a run" is a statement about its records.
-/

namespace CallPath

/-- An act of a program over one stack. -/
inductive Act (φ : Type) where
  | call (c : Call φ)
  | fail (message : String)
  | panic (message : String)

/-- A block of a program over one stack. -/
inductive Block (φ : Type) where
  /-- Enters a frame with a guard that the body can reach. A refusal is passed on if
  `insist` holds; the guard is forgotten after a body that returned if `forget` does. -/
  | enter (frame : φ) (insist forget : Bool)
  /-- Enters a frame with a guard that the body cannot reach. -/
  | enterHidden (frame : φ) (insist : Bool)
  /-- Stops whatever its body ended with. -/
  | attempt

/-- One move of a run. -/
structure Record (φ : Type) where
  before : Machine φ
  move : Move φ
  result : Transition φ

/-- A run so far. -/
structure Recording (φ : Type) where
  machine : Machine φ
  /-- The moves made, latest first. -/
  history : List (Record φ) := []

namespace Recording

variable {φ : Type} [Sentinel φ] [DecidableEq φ]

def move (r : Recording φ) (move : Move φ) : Recording φ :=
  { machine := (r.machine.step move).machine
    history := { before := r.machine, move, result := r.machine.step move } :: r.history }

/-- Enters a frame; the body is skipped if that is refused. -/
def enter (r : Recording φ) (manner : Manner) (frame : φ) (insist : Bool) :
    Opening (Recording φ) :=
  let next := r.move (.enter manner frame)
  match (r.machine.enter manner frame).answer.fault? with
  | none => .opened next
  | some fault => .skipped next (if insist then .failed (.refusal fault) else .returned)

/-- Calls and guarded entries, recorded. -/
def host : Host (Act φ) (Block φ) (Recording φ) where
  act
    | .call c, r => (r.move (.call c), .returned)
    | .fail message, r => (r, .failed (.message message))
    | .panic message, r => (r, .panicked message)
  enter
    | .enter frame insist _, r => r.enter .reachable frame insist
    | .enterHidden frame insist, r => r.enter .hidden frame insist
    | .attempt, r => .opened r
  leave
    | .enter _ _ forget, o, r =>
        (r.move (if forget && o = .returned then .forget else .leave), o)
    | .enterHidden _ _, o, r => (r.move .leave, o)
    | .attempt, _, r => (r, .returned)

end Recording

/-- Runs a program from a machine on which nothing was recorded yet. -/
def Machine.run {φ : Type} [Sentinel φ] [DecidableEq φ] (m : Machine φ)
    (p : Program (Act φ) (Block φ)) : Recording φ × Outcome :=
  p.run Recording.host { machine := m }

end CallPath
