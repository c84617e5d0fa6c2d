import CallPath.Call

/-!
# Guarded entry

Entering a frame pushes it and leaves a guard behind; leaving the guard takes the
frame off again, however the call in between ended. A guard remembers the depth at
which its frame was entered, and that number is all it goes by. If the stack is one
frame deeper than that when the guard is left, its frame is popped. Otherwise the
pushes and pops in between did not match: this is reported, and the stack is cut
back to the remembered depth.

Guards nest, so the live ones form a list, innermost first, and only the innermost
can be left. A guard may also be forgotten. Then nobody will take its frame off,
and the handle it holds is never given up.

A machine is a stack together with its guards, and a `Move` is anything that can
happen to it. Any use of a stack, however deeply nested, is a sequence of moves.
-/

namespace CallPath

inductive Manner where
  /-- The code that runs under the guard can ask it for the frame. -/
  | reachable
  /-- The code that runs under the guard does not see it. -/
  | hidden
  deriving DecidableEq

/-- What is left behind by entering a frame. -/
structure Guard (φ : Type) where
  frame : φ
  /-- The depth before it was entered. -/
  entryDepth : Nat
  manner : Manner
  deriving DecidableEq

/-- A stack and the guards on it. -/
structure Machine (φ : Type) where
  stack : Stack φ
  /-- The live guards, innermost first. -/
  guards : List (Guard φ) := []
  /-- The frames that forgotten guards hold on to. -/
  forgotten : List φ := []

/-- Anything that can happen to a machine. -/
inductive Move (φ : Type) where
  | call (c : Call φ)
  | enter (manner : Manner) (frame : φ)
  | leave
  /-- Gives the innermost guard away without leaving it. -/
  | forget

/-- What a move does. -/
structure Transition (φ : Type) where
  answer : Answer φ := .done
  machine : Machine φ
  effect : Effect φ := {}

/-- The handles that a move receives. -/
def Move.given {φ : Type} : Move φ → List φ
  | .call c => c.given
  | .enter _ f => [f]
  | .leave | .forget => []

namespace Machine

variable {φ : Type} [Sentinel φ] [DecidableEq φ]

def call (m : Machine φ) (c : Call φ) : Transition φ :=
  let reply := m.stack.call c
  { answer := reply.answer, machine := { m with stack := reply.stack }, effect := reply.effect }

/-- Enters a frame, unless the limit forbids it. The stack and the guard hold one
handle each. -/
def enter (m : Machine φ) (manner : Manner) (frame : φ) : Transition φ :=
  match m.stack.limit.refusal? m.stack.depth with
  | some limit =>
      -- nothing was pushed yet, so the frame is simply given up
      { answer := .fault (.recursionLimit limit), machine := m
        effect := { events := [.refused m.stack.depth limit], dropped := [frame] } }
  | none =>
      let reply := m.stack.call (.push frame)
      let guard := { frame, entryDepth := m.stack.depth, manner }
      { machine := { m with stack := reply.stack, guards := guard :: m.guards }
        effect := { reply.effect with cloned := [frame] } }

/-- Leaves a guard: pops its frame if the depth is right, and else reports the
imbalance and cuts the stack back. -/
def release (stack : Stack φ) (guard : Guard φ) : Stack φ × Effect φ :=
  if stack.depth = guard.entryDepth + 1 then
    -- whatever is on top goes, even if it was swapped for the frame that was entered
    let reply := stack.call .pop
    (reply.stack,
      { events := reply.effect.events ++ (reply.answer.fault?.map Event.guardPopFailed).toList
        dropped := reply.answer.kept ++ [guard.frame] })
  else
    let cut := stack.truncate guard.entryDepth
    (cut,
      { events := [.unbalanced stack.depth (guard.entryDepth + 1), .truncated cut.depth]
        dropped := stack.beyond guard.entryDepth ++ [guard.frame] })

def leave (m : Machine φ) : Transition φ :=
  match m.guards with
  | [] => { machine := m }
  | guard :: rest =>
      let released := release m.stack guard
      { machine := { m with stack := released.1, guards := rest }, effect := released.2 }

def forget (m : Machine φ) : Transition φ :=
  match m.guards with
  | [] => { machine := m }
  | guard :: rest =>
      { machine := { m with guards := rest, forgotten := guard.frame :: m.forgotten } }

def step (m : Machine φ) : Move φ → Transition φ
  | .call c => m.call c
  | .enter manner frame => m.enter manner frame
  | .leave => m.leave
  | .forget => m.forget

/-- The guard within reach of the running code: the innermost one, unless it is
hidden. -/
def guard? (m : Machine φ) : Option (Guard φ) :=
  m.guards.head?.filter (fun guard => guard.manner = .reachable)

/-- The handles that the machine holds. -/
def handles (m : Machine φ) : List φ := m.stack.toList ++ m.guards.map Guard.frame ++ m.forgotten

/-! ## How entries and exits can go -/

section

variable {m : Machine φ} {manner : Manner} {frame : φ} {guard : Guard φ}

theorem enter_refused {limit : Nat} (h : m.stack.limit.refusal? m.stack.depth = some limit) :
    m.enter manner frame =
      { answer := .fault (.recursionLimit limit), machine := m
        effect := { events := [.refused m.stack.depth limit], dropped := [frame] } } := by
  simp only [enter, h]

theorem enter_accepted (h : m.stack.limit.refusal? m.stack.depth = none) :
    m.enter manner frame =
      { machine := { m with
          stack := m.stack.push frame
          guards := { frame, entryDepth := m.stack.depth, manner } :: m.guards }
        effect := { events := [.pushed (m.stack.push frame).depth], cloned := [frame] } } := by
  simp only [enter, h]
  rfl

theorem fault?_enter (m : Machine φ) (manner : Manner) (frame : φ) :
    (m.enter manner frame).answer.fault?
      = (m.stack.limit.refusal? m.stack.depth).map Fault.recursionLimit := by
  cases h : m.stack.limit.refusal? m.stack.depth with
  | some limit => rw [enter_refused h]; rfl
  | none => rw [enter_accepted h]; rfl

theorem leave_of_nil (h : m.guards = []) : m.leave = { machine := m } := by
  simp only [leave, h]

theorem leave_of_cons {rest : List (Guard φ)} (h : m.guards = guard :: rest) :
    m.leave =
      { machine := { m with stack := (release m.stack guard).1, guards := rest }
        effect := (release m.stack guard).2 } := by
  simp only [leave, h]

theorem answer_leave (m : Machine φ) : m.leave.answer = .done := by
  cases h : m.guards with
  | nil => rw [leave_of_nil h]
  | cons guard rest => rw [leave_of_cons h]

theorem guards_leave (m : Machine φ) : m.leave.machine.guards = m.guards.tail := by
  cases h : m.guards with
  | nil => rw [leave_of_nil h, h]; rfl
  | cons guard rest => rw [leave_of_cons h]; rfl

theorem forgotten_leave (m : Machine φ) : m.leave.machine.forgotten = m.forgotten := by
  cases h : m.guards with
  | nil => rw [leave_of_nil h]
  | cons guard rest => rw [leave_of_cons h]

theorem stack_leave {rest : List (Guard φ)} (h : m.guards = guard :: rest) :
    m.leave.machine.stack = (release m.stack guard).1 := by
  rw [leave_of_cons h]

omit [Sentinel φ] [DecidableEq φ] in
theorem guards_forget (m : Machine φ) : m.forget.machine.guards = m.guards.tail := by
  obtain ⟨stack, guards, forgotten⟩ := m
  cases guards <;> rfl

omit [Sentinel φ] [DecidableEq φ] in
theorem answer_forget (m : Machine φ) : m.forget.answer = .done := by
  obtain ⟨stack, guards, forgotten⟩ := m
  cases guards <;> rfl

theorem release_balanced {s rest : Stack φ} (h : s.depth = guard.entryDepth + 1)
    (popped : s.pop? = some (frame, rest)) :
    release s guard =
      (rest, { events := [.popped rest.depth], dropped := [frame, guard.frame] }) := by
  rw [release, if_pos h, Stack.call_pop_of_some popped]
  rfl

theorem release_unbalanced {s : Stack φ} (h : s.depth ≠ guard.entryDepth + 1) :
    release s guard =
      (s.truncate guard.entryDepth,
        { events := [.unbalanced s.depth (guard.entryDepth + 1),
            .truncated (s.truncate guard.entryDepth).depth]
          dropped := s.beyond guard.entryDepth ++ [guard.frame] }) := by
  rw [release, if_neg h]

end

/-! ## What leaving a guard does to the stack -/

/-- However the guard was left, the frames below its own are what remains, or all
frames if fewer are there. -/
theorem toList_release (s : Stack φ) (guard : Guard φ) :
    (release s guard).1.toList = s.toList.drop (s.depth - guard.entryDepth) := by
  by_cases balanced : s.depth = guard.entryDepth + 1
  · obtain ⟨frame, rest, hp, -⟩ := Stack.pop?_of_depth balanced
    obtain ⟨frames, -⟩ := Stack.pop?_eq_some.mp hp
    rw [release_balanced balanced hp, balanced, Nat.add_sub_cancel_left, frames]
    rfl
  · rw [release_unbalanced balanced]
    exact Stack.toList_truncate s guard.entryDepth

theorem limit_release (s : Stack φ) (guard : Guard φ) : (release s guard).1.limit = s.limit := by
  by_cases balanced : s.depth = guard.entryDepth + 1
  · obtain ⟨frame, rest, hp, -⟩ := Stack.pop?_of_depth balanced
    rw [release_balanced balanced hp]
    exact (Stack.pop?_eq_some.mp hp).2
  · rw [release_unbalanced balanced]
    rfl

theorem depth_release (s : Stack φ) (guard : Guard φ) :
    (release s guard).1.depth = min s.depth guard.entryDepth := by
  rw [← Stack.length_toList, toList_release, List.length_drop, Stack.length_toList]
  omega

end Machine

end CallPath
