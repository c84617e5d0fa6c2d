import Mathlib
import CallPath.Proofs.History
import CallPath.Session.Frame

/-!
# The depths that are traced

Whatever changes a stack traces one line, and most of these lines have a value by the name of
`depth`. Who reads it as the depth at which the change left the stack is right about a push, a pop,
a swap, an entry, and an exit of either kind. A `clear` tells no depth, and there is no need to.

About a `set` such a reader is wrong every time. It traces the level that it wrote, under the same
name, and a level that can be written is less than the depth.
-/

namespace CallPath

/-- The value that an event gives as `depth`. -/
def Event.depth? (event : Event) : Option String := event.fields.lookup "depth"

/-- What is traced as `depth`, in order. -/
def tracedDepths (events : List Event) : List String :=
  (events.filter (·.level = .trace)).filterMap Event.depth?

variable {φ : Type}

/-- That a move traced once how deep it left the stack. Otherwise it traced no depth, and left the
stack as it was, or cleared it, or put another in its place. -/
def Record.TracesDepth (record : Record φ) : Prop :=
  let traced := tracedDepths record.result.effect.events
  let after := record.result.machine.stack
  traced = [toString after.depth] ∨
    (traced = [] ∧ (after = record.before.stack ∨ record.move = .call .clear ∨
      ∃ next, record.move = .call (.replace next)))

/-- That a move traced a level instead, where the depth is another number. Otherwise it traced no
depth, and left the stack as it was. -/
def Record.TracesLevel (record : Record φ) (level : Nat) : Prop :=
  let traced := tracedDepths record.result.effect.events
  let after := record.result.machine.stack
  (traced = [toString level] ∧ level < after.depth ∧ toString after.depth ∉ traced) ∨
    (traced = [] ∧ after = record.before.stack)

namespace Machine

variable [Sentinel φ] [DecidableEq φ] (m : Machine φ)

/-! ## What one move traces -/

theorem call_tracesDepth {c : Call φ} (unset : ∀ level frame, c ≠ .set level frame) :
    (m.record (.call c)).TracesDepth := by
  show tracedDepths (m.stack.call c).effect.events = [toString (m.stack.call c).stack.depth] ∨
    (tracedDepths (m.stack.call c).effect.events = [] ∧ ((m.stack.call c).stack = m.stack ∨
      (.call c : Move φ) = .call .clear ∨ ∃ next, (.call c : Move φ) = .call (.replace next)))
  cases c with
  | push frame => exact .inl rfl
  | pop =>
      cases hs : m.stack.pop? with
      | none =>
          rw [Stack.call_pop_of_none hs]
          exact .inr ⟨rfl, .inl rfl⟩
      | some popped =>
          rw [Stack.call_pop_of_some hs]
          exact .inl rfl
  | swap frame =>
      cases hs : m.stack.swap? frame with
      | none =>
          rw [Stack.call_swap_of_none hs]
          exact .inr ⟨rfl, .inl rfl⟩
      | some swapped =>
          rw [Stack.call_swap_of_some hs]
          exact .inl rfl
  | set level frame => exact absurd rfl (unset level frame)
  | clear => exact .inr ⟨rfl, .inr (.inl rfl)⟩
  | replace next => exact .inr ⟨rfl, .inr (.inr ⟨next, rfl⟩)⟩
  | _ => exact .inr ⟨rfl, .inl rfl⟩

theorem enter_tracesDepth (manner : Manner) (frame : φ) :
    (m.record (.enter manner frame)).TracesDepth := by
  show tracedDepths (m.enter manner frame).effect.events
      = [toString (m.enter manner frame).machine.stack.depth] ∨
    (tracedDepths (m.enter manner frame).effect.events = [] ∧
      ((m.enter manner frame).machine.stack = m.stack ∨ _))
  cases hr : m.stack.limit.refusal? m.stack.depth with
  | some limit =>
      rw [enter_refused hr]
      exact .inr ⟨rfl, .inl rfl⟩
  | none =>
      rw [enter_accepted hr]
      exact .inl rfl

/-- Either kind of exit traces the depth that it goes back to. -/
theorem release_traces (s : Stack φ) (guard : Guard φ) :
    tracedDepths (release s guard).2.events = [toString (release s guard).1.depth] := by
  by_cases balanced : s.depth = guard.entryDepth + 1
  · obtain ⟨frame, rest, hp, -⟩ := Stack.pop?_of_depth balanced
    rw [release_balanced balanced hp]
    rfl
  · rw [release_unbalanced balanced]
    rfl

theorem leave_tracesDepth : (m.record .leave).TracesDepth := by
  show tracedDepths m.leave.effect.events = [toString m.leave.machine.stack.depth] ∨
    (tracedDepths m.leave.effect.events = [] ∧ (m.leave.machine.stack = m.stack ∨ _))
  cases hg : m.guards with
  | nil =>
      rw [leave_of_nil hg]
      exact .inr ⟨rfl, .inl rfl⟩
  | cons guard rest =>
      rw [leave_of_cons hg]
      exact .inl (release_traces m.stack guard)

/-- **A move traces the depth that it leaves,** unless it is a `set`. -/
theorem record_tracesDepth {mv : Move φ} (unset : ∀ level frame, mv ≠ .call (.set level frame)) :
    (m.record mv).TracesDepth := by
  cases mv with
  | call c =>
      exact m.call_tracesDepth (fun level frame hc => unset level frame (congrArg Move.call hc))
  | enter manner frame => exact m.enter_tracesDepth manner frame
  | leave => exact m.leave_tracesDepth
  | forget =>
      obtain ⟨stack, guards, forgotten⟩ := m
      cases guards <;> exact .inr ⟨rfl, .inl rfl⟩

/-- **A `set` traces its level,** and that is not the depth. -/
theorem set_tracesLevel (level : Nat) (frame : φ) :
    (m.record (.call (.set level frame))).TracesLevel level := by
  show (tracedDepths (m.stack.call (.set level frame)).effect.events = _ ∧
      level < (m.stack.call (.set level frame)).stack.depth ∧
      toString (m.stack.call (.set level frame)).stack.depth ∉
        tracedDepths (m.stack.call (.set level frame)).effect.events) ∨
    (tracedDepths (m.stack.call (.set level frame)).effect.events = [] ∧
      (m.stack.call (.set level frame)).stack = m.stack)
  cases hs : m.stack.set? level frame with
  | none =>
      rw [Stack.call_set_of_none hs]
      exact .inr ⟨rfl, rfl⟩
  | some written =>
      have inside : level < written.2.depth := by
        rw [Stack.depth_of_set? hs]
        exact Nat.lt_of_not_le (fun beyond => by
          rw [Stack.set?_eq_none_iff_depth.mpr beyond] at hs
          cases hs)
      rw [Stack.call_set_of_some hs]
      refine .inl ⟨rfl, inside, fun same => ?_⟩
      exact absurd (Nat.repr_injective (List.mem_singleton.mp same)) (Nat.ne_of_gt inside)

end Machine

variable [Sentinel φ] [DecidableEq φ]

/-! ## What a run traces -/

/-- **What is traced as the depth is the depth that results, but for a `set`.** Take any program
and anything that happens in its run, inside bodies and on the way out of them as well. If it
is no `set`, it traces the depth at which it leaves the stack, once, or else it traces no depth
at all, and the stack is as it was, cleared, or replaced as a whole. A `set` traces no depth if it
is refused, and if not it traces its level, which is less than the depth and never the same. -/
theorem traced_depths_result_but_for_set (start : Machine φ) (p : Program (Act φ) (Block φ)) :
    ∀ record ∈ (start.run p).1.history,
      ((∀ level frame, record.move ≠ .call (.set level frame)) → record.TracesDepth) ∧
      ∀ level frame, record.move = .call (.set level frame) → record.TracesLevel level := by
  intro record hr
  obtain ⟨happened, -, -⟩ := run_keeps_history start p
  obtain ⟨earlier, -, here⟩ := happened.of_mem hr
  refine ⟨fun unset => ?_, fun level frame written => ?_⟩
  · rw [here]
    exact Machine.record_tracesDepth _ unset
  · rw [here, written]
    exact Machine.set_tracesLevel _ level frame

/-- A stack of one frame, which is written. The trace tells level 0, and the depth is 1. -/
theorem set_traces_its_level :
    let start : Machine Frame := { stack := .ofList {} [.numbered 0] }
    let history := (start.run (.act (.call (.set 0 (.numbered 1))) .done)).1.history
    let record := history.head (by decide)
    record ∈ history ∧ record.move = .call (.set 0 (.numbered 1)) ∧
      record.result.machine.stack.depth = 1 ∧ record.TracesLevel 0 ∧
      tracedDepths record.result.effect.events = ["0"] := by
  intro start history record
  have here : record ∈ history := List.head_mem _
  have wrong := (traced_depths_result_but_for_set start _ record here).2 0 (.numbered 1) rfl
  exact ⟨here, rfl, rfl, wrong, rfl⟩

end CallPath
