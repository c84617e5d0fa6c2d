import CallPath.Proofs.Recasting
import CallPath.Proofs.Unwinding
import CallPath.Session.Frame

/-!
# Calls behave the same at any depth

Put some frames beneath a stack and raise its limit by as many. A program that never reaches
below its own bottom cannot tell. It counts levels from the top, and the top is where it
was. The two numbers that do count from the bottom, the depths that guards remember and the
limit on entry, have both moved up by the same amount as the depths they are compared with,
so every guard is left in the same way and every entry is let in or refused as before.

What has moved is written down once, in `Recast.above`: which numbers of answers and events
are depths, and which are not. A level is not, so the event of a replaced frame stays as it
is. The rest is one fact about each move (`Recast.above_fits`).
-/

namespace CallPath

variable {φ : Type}

/-! ## More frames beneath -/

/-- A stack with the frames `below` beneath its own, and its limit raised to make room. -/
def Stack.above (below : List φ) (s : Stack φ) : Stack φ :=
  .ofList (s.limit.raise below.length) (s.toList ++ below)

/-- A guard that was entered `n` frames higher up. -/
def Guard.raise (n : Nat) (guard : Guard φ) : Guard φ :=
  { guard with entryDepth := guard.entryDepth + n }

/-- A machine with the frames `below` beneath those of its stack. -/
def Machine.above (below : List φ) (m : Machine φ) : Machine φ :=
  { stack := m.stack.above below
    guards := m.guards.map (Guard.raise below.length)
    forgotten := m.forgotten }

/-- The fault that a stack reports under a limit raised by `n`. -/
def Fault.raise (n : Nat) : Fault → Fault
  | recursionLimit limit => recursionLimit (limit + n)
  | emptyStack call => emptyStack call
  | outOfBounds index depth => outOfBounds index depth

/-- The answer of a stack under a limit raised by `n`. -/
def Answer.raise (n : Nat) : Answer φ → Answer φ
  | fault f => fault (f.raise n)
  | a => a

/-- The event on a stack that is `n` frames deeper. A level stays what it is, and so do the
warnings, none of which is given on a stack that is deep enough. -/
def Event.raise (n : Nat) : Event → Event
  | pushed depth => pushed (depth + n)
  | popped depth => popped (depth + n)
  | swapped depth => swapped (depth + n)
  | truncated depth => truncated (depth + n)
  | refused depth limit => refused (depth + n) (limit + n)
  | unbalanced depth expected => unbalanced (depth + n) (expected + n)
  | e => e

/-- The same machine with the frames `below` beneath it. -/
def Recast.above (below : List φ) : Recast φ where
  machine := Machine.above below
  answer := Answer.raise below.length
  event := Event.raise below.length
  fault := Fault.raise below.length
  fault?_answer a := by cases a <;> rfl

/-! ## Programs that keep to the top -/

/-- Whether a call goes by the top alone: it counts levels from there, and it neither tells
how deep the stack is nor reaches for all of its frames. -/
def Call.isRelative : Call φ → Bool
  | .push _ | .pop | .swap _ | .set _ _ | .get _ | .top | .frame _ | .isNative _ => true
  | .clear | .depth | .limit | .list | .iterate _ _ | .copy | .replace _ => false

def Move.isRelative : Move φ → Bool
  | .call c => c.isRelative
  | .enter _ _ | .leave | .forget => true

/-- The level that a move reads. -/
def Move.level? : Move φ → Option Nat
  | .call (.get level) | .call (.frame level) => some level
  | .call .top => some 0
  | _ => none

/-- Whether a move found the frames it needed: it was not refused for want of one, and it
read no level past the bottom. -/
def Record.staysInside (record : Record φ) : Bool :=
  record.result.answer.fault?.all (fun fault => !fault.isInternal) &&
    record.move.level?.all (fun level => level < record.before.stack.depth)

theorem Record.staysInside_iff {record : Record φ} :
    record.staysInside = true ↔
      (∀ fault, record.result.answer.fault? = some fault → fault.isInternal = false) ∧
        ∀ level, record.move.level? = some level → level < record.before.stack.depth := by
  simp [staysInside, Option.all_eq_true]

/-! ## What each operation does above other frames -/

namespace Stack

variable (below : List φ) (s : Stack φ)

theorem toList_above : (s.above below).toList = s.toList ++ below := toList_ofList _ _

theorem depth_above : (s.above below).depth = s.depth + below.length := by
  rw [← length_toList, toList_above, List.length_append, length_toList]

theorem push_above (frame : φ) : (s.above below).push frame = (s.push frame).above below := by
  refine ext_toList ?_ rfl
  rw [toList_push, toList_above, toList_above, toList_push]
  rfl

theorem frame?_above {level : Nat} (inside : level < s.depth) :
    (s.above below).frame? level = s.frame? level := by
  rw [← length_toList] at inside
  rw [frame?_eq, frame?_eq, toList_above, List.getElem?_append_left inside]

theorem get_above [Sentinel φ] {level : Nat} (inside : level < s.depth) :
    (s.above below).get level = s.get level := by
  rw [get, get, frame?_above below s inside]

variable {s} {rest : Stack φ} {old : φ}

theorem pop?_above (popped : s.pop? = some (old, rest)) :
    (s.above below).pop? = some (old, rest.above below) := by
  obtain ⟨frames, limit⟩ := pop?_eq_some.mp popped
  refine pop?_eq_some.mpr ⟨?_, congrArg (Limit.raise · below.length) limit⟩
  rw [toList_above, toList_above, frames]
  rfl

theorem set?_above {level : Nat} {frame : φ} (written : s.set? level frame = some (old, rest)) :
    (s.above below).set? level frame = some (old, rest.above below) := by
  obtain ⟨found, frames, limit⟩ := set?_eq_some.mp written
  obtain ⟨inside, -⟩ := List.getElem?_eq_some_iff.mp found
  refine set?_eq_some.mpr ⟨?_, ?_, congrArg (Limit.raise · below.length) limit⟩
  · rw [toList_above, List.getElem?_append_left inside, found]
  · rw [toList_above, toList_above, frames, List.set_append_left _ _ inside]

theorem swap?_above {frame : φ} (swapped : s.swap? frame = some (old, rest)) :
    (s.above below).swap? frame = some (old, rest.above below) := by
  rw [swap?_eq] at swapped ⊢
  exact set?_above below swapped

variable (s)

theorem truncate_above (depth : Nat) :
    (s.above below).truncate (depth + below.length) = (s.truncate depth).above below := by
  have size : s.depth - depth ≤ s.toList.length := by
    rw [length_toList]
    exact Nat.sub_le _ _
  refine ext_toList ?_ rfl
  rw [toList_truncate, toList_above, toList_above, toList_truncate, depth_above,
    Nat.add_sub_add_right, List.drop_append_of_le_length size]

theorem beyond_above (depth : Nat) :
    (s.above below).beyond (depth + below.length) = s.beyond depth := by
  have size : s.depth - depth ≤ s.toList.length := by
    rw [length_toList]
    exact Nat.sub_le _ _
  rw [beyond, beyond, toList_above, depth_above, Nat.add_sub_add_right,
    List.take_append_of_le_length size]

end Stack

theorem Limit.refusal?_raise (limit : Limit) (depth n : Nat) :
    (limit.raise n).refusal? (depth + n) = (limit.refusal? depth).map (· + n) := by
  cases hr : limit.refusal? depth with
  | none =>
      have free := refusal?_eq_none.mp hr
      refine refusal?_eq_none.mpr (fun max hmax => ?_)
      obtain ⟨m, hm, rfl⟩ := Option.map_eq_some_iff.mp hmax
      exact Nat.add_lt_add_right (free m hm) n
  | some max =>
      obtain ⟨hmax, hle⟩ := refusal?_eq_some.mp hr
      refine refusal?_eq_some.mpr ⟨?_, Nat.add_le_add_right hle n⟩
      rw [raise, hmax]
      rfl

variable [Sentinel φ] [DecidableEq φ]

/-! ## What each move does above other frames -/

/-- The reply of a stack with other frames beneath it. -/
def Reply.above (below : List φ) (r : Reply φ) : Reply φ :=
  { answer := r.answer.raise below.length
    stack := r.stack.above below
    effect := { r.effect with events := r.effect.events.map (Event.raise below.length) } }

/-- A call that finds the frames it needs does not notice what is beneath them. -/
theorem Stack.call_above (below : List φ) (s : Stack φ) {c : Call φ}
    (relative : c.isRelative = true)
    (met : ∀ fault, (s.call c).answer.fault? = some fault → fault.isInternal = false)
    (read : ∀ level, (Move.call c).level? = some level → level < s.depth) :
    (s.above below).call c = (s.call c).above below := by
  cases c with
  | push frame =>
      show Reply.mk _ _ _ = Reply.mk _ _ _
      rw [push_above, depth_above]
      rfl
  | pop =>
      cases hs : s.pop? with
      | none =>
          rw [call_pop_of_none hs] at met
          cases met _ rfl
      | some popped =>
          rw [call_pop_of_some (pop?_above below hs), call_pop_of_some hs, depth_above]
          rfl
  | swap frame =>
      cases hs : s.swap? frame with
      | none =>
          rw [call_swap_of_none hs] at met
          cases met _ rfl
      | some swapped =>
          rw [call_swap_of_some (swap?_above below hs), call_swap_of_some hs, depth_above]
          rfl
  | set level frame =>
      cases hs : s.set? level frame with
      | none =>
          rw [call_set_of_none hs] at met
          cases met _ rfl
      | some written =>
          rw [call_set_of_some (set?_above below hs), call_set_of_some hs]
          rfl
  | get level =>
      show Reply.mk _ _ _ = Reply.mk _ _ _
      rw [get_above below s (read level rfl)]
      rfl
  | top =>
      show Reply.mk _ _ _ = Reply.mk _ _ _
      rw [top, get_above below s (read 0 rfl)]
      rfl
  | frame level =>
      show Reply.mk _ _ _ = Reply.mk _ _ _
      rw [frame?_above below s (read level rfl)]
      rfl
  | isNative frame => rfl
  | clear => cases relative
  | depth => cases relative
  | limit => cases relative
  | list => cases relative
  | iterate source calls => cases relative
  | copy => cases relative
  | replace next => cases relative

/-- A guard is left in the same way above other frames, whether by a pop or by a cut. -/
theorem Machine.release_above (below : List φ) (s : Stack φ) (guard : Guard φ) :
    release (s.above below) (guard.raise below.length) =
      ((release s guard).1.above below,
        { (release s guard).2 with
          events := (release s guard).2.events.map (Event.raise below.length) }) := by
  have expected : (s.above below).depth = (guard.raise below.length).entryDepth + 1
      ↔ s.depth = guard.entryDepth + 1 := by
    rw [Stack.depth_above]
    show s.depth + below.length = guard.entryDepth + below.length + 1 ↔ _
    omega
  by_cases balanced : s.depth = guard.entryDepth + 1
  · obtain ⟨frame, rest, hp, -⟩ := Stack.pop?_of_depth balanced
    rw [release_balanced (expected.mpr balanced) (Stack.pop?_above below hp),
      release_balanced balanced hp, Stack.depth_above]
    rfl
  · rw [release_unbalanced (fun h => balanced (expected.mp h)), release_unbalanced balanced]
    show (_, Effect.mk [.unbalanced _ _, .truncated _] [] _) = _
    dsimp only [Guard.raise]
    rw [Stack.truncate_above, Stack.beyond_above, Stack.depth_above, Stack.depth_above,
      Nat.add_right_comm]
    rfl

namespace Recast

/-- Entry is let in or refused as before, for the limit has moved up with the depth. -/
theorem above_fits_enter (below : List φ) (m : Machine φ) (manner : Manner) (frame : φ) :
    (Recast.above below).Fits m (.enter manner frame) := by
  have depth : ((Recast.above below).machine m).stack.depth = m.stack.depth + below.length :=
    Stack.depth_above below m.stack
  have asked : ((Recast.above below).machine m).stack.limit.refusal?
      ((Recast.above below).machine m).stack.depth
      = (m.stack.limit.refusal? m.stack.depth).map (· + below.length) := by
    rw [depth, ← Limit.refusal?_raise]
    rfl
  show ((Recast.above below).machine m).enter manner frame
    = (Recast.above below).transition (m.enter manner frame)
  cases hr : m.stack.limit.refusal? m.stack.depth with
  | some limit =>
      rw [hr] at asked
      rw [Machine.enter_refused hr, Machine.enter_refused asked, depth]
      rfl
  | none =>
      rw [hr] at asked
      have pushed : ((Recast.above below).machine m).stack.push frame
          = (m.stack.push frame).above below := Stack.push_above below m.stack frame
      rw [Machine.enter_accepted hr, Machine.enter_accepted asked, depth, pushed,
        Stack.depth_above]
      rfl

/-- **No relative move notices what is beneath,** if it finds the frames it needs. -/
theorem above_fits (below : List φ) {m : Machine φ} {mv : Move φ} (relative : mv.isRelative = true)
    (inside : (m.record mv).staysInside = true) : (Recast.above below).Fits m mv := by
  obtain ⟨met, read⟩ := Record.staysInside_iff.mp inside
  cases mv with
  | call c =>
      have reply : ((Recast.above below).machine m).stack.call c
          = (m.stack.call c).above below :=
        Stack.call_above below m.stack relative met read
      show Transition.mk _ _ _ = Transition.mk _ _ _
      rw [reply]
      rfl
  | enter manner frame => exact above_fits_enter below m manner frame
  | leave =>
      cases hg : m.guards with
      | nil =>
          have bare : ((Recast.above below).machine m).guards = [] := congrArg (List.map _) hg
          show ((Recast.above below).machine m).leave = (Recast.above below).transition m.leave
          rw [Machine.leave_of_nil bare, Machine.leave_of_nil hg]
          rfl
      | cons guard rest =>
          have live : ((Recast.above below).machine m).guards
              = guard.raise below.length :: rest.map (Guard.raise below.length) :=
            congrArg (List.map _) hg
          have released : Machine.release ((Recast.above below).machine m).stack
              (guard.raise below.length) = _ := Machine.release_above below m.stack guard
          show ((Recast.above below).machine m).leave = (Recast.above below).transition m.leave
          rw [Machine.leave_of_cons live, Machine.leave_of_cons hg, released]
          rfl
  | forget =>
      obtain ⟨stack, guards, forgotten⟩ := m
      cases guards <;> rfl

end Recast

/-- **The frame rule.** Take any program that uses neither `clear` nor whole stacks and asks
nothing that depends on how deep it is, and a run of it that is never short of frames: no pop,
swap or write is refused, and no read goes past the bottom. The run of the same program with
the frames `below` beneath, and the limit raised by as many, is the same run, record by
record and in its outcome. Its frames are those of the first run with `below` beneath them,
and it differs in nothing else but the depths: those that guards remember, those in the
events, and the limit that a refusal tells. -/
theorem frame_rule (s : Stack φ) (below : List φ) (p : Program (Act φ) (Block φ))
    (relative : ∀ mv ∈ p.moves, mv.isRelative = true)
    (inside : ∀ record ∈ (({ stack := s } : Machine φ).run p).1.history,
      record.staysInside = true) :
    let run := ({ stack := s } : Machine φ).run p
    let deeper := ({ stack := s.above below } : Machine φ).run p
    deeper = (Recast.above below).ended run ∧
      ∀ m : Machine φ, ((Recast.above below).machine m).stack.toList = m.stack.toList ++ below := by
  intro run deeper
  refine ⟨?_, fun m => Stack.toList_above below m.stack⟩
  obtain ⟨-, -, made⟩ := run_keeps_history { stack := s } p
  rcases (Recast.above below).run_recast { stack := s } p with parted | same
  · -- the first move that does not fit is one of this run, and all of these fit
    obtain ⟨m, mv, past, here, -, unfit⟩ := parted
    have member := here.subset List.mem_cons_self
    exact absurd (Recast.above_fits below (relative mv (made _ member)) (inside _ member)) unfit
  · exact same

/-- A body that pops below its own guard, writes to the bottom from inside another body, and
fails when it is refused an entry. -/
def wandering : Program (Act Frame) (Block Frame) :=
  .block (.enter (.numbered 2) true true)
    (.act (.call .pop) <|
      .act (.call .pop) <|
      .block (.enterHidden (.numbered 3) true)
        (.act (.call (.push (.numbered 4))) <|
          .act (.call (.set 2 (.numbered 5))) <|
          .block (.enter (.numbered 6) true false) .done .done)
        .done)
    .done

theorem frame_rule_of_wandering :
    let s : Stack Frame := .ofList { max := some 3 } [.numbered 1, .numbered 0]
    let below : List Frame := [.numbered 8, .numbered 9]
    let deeper := ({ stack := s.above below } : Machine Frame).run wandering
    (∀ mv ∈ wandering.moves, mv.isRelative = true) ∧
      (∀ record ∈ (({ stack := s } : Machine Frame).run wandering).1.history,
        record.staysInside = true) ∧
      deeper.2 = .failed (.refusal (.recursionLimit 5)) ∧
      deeper.1.history.map (fun record => record.result.effect.events) =
        [[.unbalanced 3 5, .truncated 3], [.unbalanced 5 4, .truncated 3], [.refused 5 5],
          [.replaced 2], [.pushed 5], [.pushed 4], [.popped 3], [.popped 4], [.pushed 5]] := by
  intro s below deeper
  have relative : ∀ mv ∈ wandering.moves, mv.isRelative = true := List.all_eq_true.mp rfl
  have inside : ∀ record ∈ (({ stack := s } : Machine Frame).run wandering).1.history,
      record.staysInside = true := List.all_eq_true.mp (by decide)
  obtain ⟨same, -⟩ := frame_rule s below wandering relative inside
  have ended : deeper = _ := same
  rw [ended]
  exact ⟨relative, inside, by decide, by decide⟩

end CallPath
