import Mathlib.Data.List.DropRight
import Mathlib.Data.List.Forall2
import CallPath.Recording
import CallPath.Proofs.Simulation

/-!
# The stack as a list

The plainest call stack there is: a list with the top at its head. Pushing is `cons`,
popping takes the head off, a level is a position in the list, and leaving a guard keeps
as many frames from the bottom as there were when its frame was entered. No slot is ever
computed, and nothing counts from the other end.

`TopFirst` interprets programs by itself. It keeps a mark where a machine keeps a guard,
decides by itself whether an entry is refused, and so by itself which bodies are run. The
main statement is that a machine cannot be told from it: every program ends in the same
outcome, every move along the way has the same answer, and after every move, inside bodies
too, every way of reading the stack agrees with the list.
-/

namespace CallPath

variable {φ : Type}

/-! ## The reference -/

/-- The frames of the calls in progress, the top first. -/
structure TopFirst (φ : Type) where
  frames : List φ
  /-- The limit on guarded entry. -/
  limit : Limit
  /-- How many frames there were when each live guard was entered, innermost first. -/
  marks : List Nat := []

/-- The frames that a source offers. -/
def Source.frames (l : List φ) : Source → List φ
  | .whole => l
  | .callers => l.tail

/-- A cursor call on the list of the frames still to come: its answer, and what is still
to come after it. -/
def CursorCall.onList (l : List φ) : CursorCall → CursorAnswer φ × List φ
  | .takeTop => (.frame l.head?, l.tail)
  | .takeBottom => (.frame l.getLast?, l.dropLast)
  | .length => (.number l.length, l)
  | .bounds => (.bounds l.length l.length, l)
  | .skipTop k => (.frame l[k]?, l.drop (k + 1))
  | .skipBottom k => (.frame l.reverse[k]?, l.take (l.length - (k + 1)))
  | .rest => (.frames l, l)
  | .restReversed => (.frames l.reverse, l)
  | .bottom => (.frame l.getLast?, l)
  | .count => (.number l.length, l)
  | .inspect => (.stored l.reverse, l)

/-- Cursor calls in order, on a list. -/
def CursorCall.runOnList (l : List φ) : List CursorCall → List (CursorAnswer φ)
  | [] => []
  | c :: cs => (c.onList l).1 :: runOnList (c.onList l).2 cs

namespace TopFirst

variable [Sentinel φ] [DecidableEq φ]

/-- Makes a call. -/
def call (s : TopFirst φ) : Call φ → Answer φ × TopFirst φ
  | .push frame => (.done, { s with frames := frame :: s.frames })
  | .pop =>
      match s.frames with
      | [] => (.fault (.emptyStack "pop"), s)
      | frame :: rest => (.frame frame, { s with frames := rest })
  | .swap frame =>
      match s.frames with
      | [] => (.fault (.emptyStack "swap"), s)
      | old :: rest => (.frame old, { s with frames := frame :: rest })
  | .set level frame =>
      if level < s.frames.length then (.done, { s with frames := s.frames.set level frame })
      else (.fault (.outOfBounds level s.frames.length), s)
  | .clear => (.done, { s with frames := [] })
  | .get level => (.frame (s.frames.getD level Sentinel.native), s)
  | .top => (.frame (s.frames.headD Sentinel.native), s)
  | .frame level => (.seen s.frames[level]?, s)
  | .isNative frame => (.flag (frame = Sentinel.native), s)
  | .depth => (.depth s.frames.length s.frames.isEmpty, s)
  | .limit => (.limit s.limit, s)
  | .list => (.frames s.frames, s)
  | .iterate source calls => (.steps (CursorCall.runOnList (source.frames s.frames) calls), s)
  | .copy => (.stack (Stack.ofList s.limit s.frames), s)
  | .replace next =>
      (.stack (Stack.ofList s.limit s.frames),
        { s with frames := next.toList, limit := next.limit })

/-- Enters a frame that nothing stands in the way of. -/
def entered (s : TopFirst φ) (frame : φ) : Answer φ × TopFirst φ :=
  (.done, { s with frames := frame :: s.frames, marks := s.frames.length :: s.marks })

/-- Makes a move. -/
def step (s : TopFirst φ) : Move φ → Answer φ × TopFirst φ
  | .call c => s.call c
  | .enter _ frame =>
      match s.limit.max with
      | none => s.entered frame
      | some max =>
          if s.frames.length < max then s.entered frame
          else (.fault (.recursionLimit max), s)
  | .leave =>
      match s.marks with
      | [] => (.done, s)
      | mark :: rest => (.done, { s with frames := s.frames.rtake mark, marks := rest })
  | .forget => (.done, { s with marks := s.marks.tail })

/-- A run on lists so far: the list now, and for every move, latest first, its answer and
the list after it. -/
structure Run (φ : Type) where
  state : TopFirst φ
  history : List (Answer φ × TopFirst φ) := []

/-- Makes a move and notes it. -/
def Run.move (r : Run φ) (mv : Move φ) : Run φ :=
  { state := (r.state.step mv).2, history := r.state.step mv :: r.history }

/-- Enters a frame; the body is skipped if that is refused. -/
def Run.enter (r : Run φ) (manner : Manner) (frame : φ) (insist : Bool) : Opening (Run φ) :=
  match (r.state.step (.enter manner frame)).1.fault? with
  | none => .opened (r.move (.enter manner frame))
  | some fault =>
      .skipped (r.move (.enter manner frame))
        (if insist then .failed (.refusal fault) else .returned)

/-- Calls and guarded entries on a list. -/
def host : Host (Act φ) (Block φ) (Run φ) where
  act
    | .call c, r => (r.move (.call c), .returned)
    | .fail message, r => (r, .failed (.message message))
    | .panic message, r => (r, .panicked message)
  enter
    | .enter frame insist _, r => r.enter .reachable frame insist
    | .enterHidden frame insist, r => r.enter .hidden frame insist
    | .attempt, r => .opened r
  leave
    | .enter _ _ forget, o, r =>
        (r.move (if forget && o = .returned then .forget else .leave), o)
    | .enterHidden _ _, o, r => (r.move .leave, o)
    | .attempt, _, r => (r, .returned)

/-- Runs a program on a list. -/
def run (s : TopFirst φ) (p : Program (Act φ) (Block φ)) : Run φ × Outcome :=
  p.run host { state := s }

end TopFirst

/-! ## A machine as a list -/

/-- A stack of which only the order of the frames is looked at, under guards that were
entered at `marks`. -/
def Stack.topFirst (s : Stack φ) (marks : List Nat) : TopFirst φ :=
  { frames := s.toList, limit := s.limit, marks }

/-- A machine of which only the order of the frames is looked at. -/
def Machine.topFirst (m : Machine φ) : TopFirst φ :=
  m.stack.topFirst (m.guards.map Guard.entryDepth)

theorem Stack.topFirst_ofList (limit : Limit) (l : List φ) (marks : List Nat) :
    (Stack.ofList limit l).topFirst marks = { frames := l, limit, marks } := by
  rw [Stack.topFirst, Stack.toList_ofList]
  rfl

theorem Cursor.call_onList (it : Cursor φ) (c : CursorCall) :
    (it.call c).1 = (c.onList it.remaining).1 ∧
      (it.call c).2.remaining = (c.onList it.remaining).2 := by
  have hlen := it.length_remaining
  cases c with
  | takeTop =>
      obtain ⟨taken, left⟩ := it.takeTop_eq_skipTop
      rw [(it.skipTop_eq 0).1] at taken
      rw [(it.skipTop_eq 0).2] at left
      refine ⟨?_, ?_⟩
      · show CursorAnswer.frame it.takeTop.1 = .frame it.remaining.head?
        rw [taken, List.head?_eq_getElem?]
      · show it.takeTop.2.remaining = it.remaining.tail
        rw [left, List.drop_one]
  | takeBottom =>
      obtain ⟨taken, left⟩ := it.takeBottom_eq_skipBottom
      rw [(it.skipBottom_eq 0).1] at taken
      rw [(it.skipBottom_eq 0).2] at left
      refine ⟨?_, ?_⟩
      · show CursorAnswer.frame it.takeBottom.1 = .frame it.remaining.getLast?
        rw [taken, ← List.head?_eq_getElem?, List.head?_reverse]
      · show it.takeBottom.2.remaining = it.remaining.dropLast
        rw [left, List.dropLast_eq_take, hlen]
  | length => exact ⟨congrArg CursorAnswer.number hlen.symm, rfl⟩
  | bounds => exact ⟨congrArg₂ CursorAnswer.bounds hlen.symm hlen.symm, rfl⟩
  | skipTop k =>
      exact ⟨congrArg CursorAnswer.frame (it.skipTop_eq k).1, (it.skipTop_eq k).2⟩
  | skipBottom k =>
      refine ⟨congrArg CursorAnswer.frame (it.skipBottom_eq k).1, ?_⟩
      show (it.skipBottom k).2.remaining = it.remaining.take (it.remaining.length - (k + 1))
      rw [hlen]
      exact (it.skipBottom_eq k).2
  | rest => exact ⟨rfl, rfl⟩
  | restReversed => exact ⟨rfl, rfl⟩
  | bottom => exact ⟨rfl, rfl⟩
  | count => exact ⟨rfl, rfl⟩
  | inspect => exact ⟨rfl, rfl⟩

theorem Cursor.run_onList (it : Cursor φ) (cs : List CursorCall) :
    it.run cs = CursorCall.runOnList it.remaining cs := by
  induction cs generalizing it with
  | nil => rfl
  | cons c cs ih =>
      obtain ⟨answer, left⟩ := it.call_onList c
      rw [Cursor.run, CursorCall.runOnList, ih, answer, left]

theorem Source.remaining_cursor (s : Stack φ) (source : Source) :
    (source.cursor s).remaining = source.frames s.toList := by
  cases source with
  | whole => exact Cursor.remaining_cursor s
  | callers => exact (Cursor.remaining_cursor s.callers).trans s.toList_callers

theorem Stack.get_eq [Sentinel φ] (s : Stack φ) (level : Nat) :
    s.get level = s.toList.getD level Sentinel.native := by
  rw [Stack.get, Stack.frame?_eq, List.getD_eq_getElem?_getD]

theorem Stack.top_eq [Sentinel φ] (s : Stack φ) : s.top = s.toList.headD Sentinel.native := by
  rw [Stack.top, Stack.get_eq]
  cases s.toList <;> rfl

variable [Sentinel φ] [DecidableEq φ]

/-- **A call does to the stack what it does to the list,** and answers the same. -/
theorem Stack.call_topFirst (s : Stack φ) (marks : List Nat) (c : Call φ) :
    (s.call c).answer = ((s.topFirst marks).call c).1 ∧
      (s.call c).stack.topFirst marks = ((s.topFirst marks).call c).2 := by
  have hframes : (s.topFirst marks).frames = s.toList := rfl
  cases c with
  | push frame =>
      refine ⟨rfl, ?_⟩
      show (s.push frame).topFirst marks = _
      rw [Stack.topFirst, Stack.toList_push]
      rfl
  | pop =>
      unfold Stack.call TopFirst.call
      dsimp only
      rw [hframes, Stack.pop?_eq]
      cases s.toList with
      | nil => exact ⟨rfl, rfl⟩
      | cons frame rest => exact ⟨rfl, Stack.topFirst_ofList s.limit rest marks⟩
  | swap frame =>
      unfold Stack.call TopFirst.call
      dsimp only
      rw [hframes, Stack.swap?_eq, Stack.set?_eq]
      cases s.toList with
      | nil => exact ⟨rfl, rfl⟩
      | cons old rest => exact ⟨rfl, Stack.topFirst_ofList s.limit (frame :: rest) marks⟩
  | set level frame =>
      unfold Stack.call TopFirst.call
      dsimp only
      rw [hframes, Stack.set?_eq]
      by_cases h : level < s.toList.length
      · rw [if_pos h, List.getElem?_eq_getElem h]
        exact ⟨rfl, Stack.topFirst_ofList s.limit (s.toList.set level frame) marks⟩
      · rw [if_neg h, List.getElem?_eq_none (Nat.le_of_not_lt h), Stack.length_toList]
        exact ⟨rfl, rfl⟩
  | clear => exact ⟨rfl, rfl⟩
  | get level => exact ⟨congrArg Answer.frame (s.get_eq level), rfl⟩
  | top => exact ⟨congrArg Answer.frame s.top_eq, rfl⟩
  | frame level => exact ⟨congrArg Answer.seen (s.frame?_eq level), rfl⟩
  | isNative frame => exact ⟨rfl, rfl⟩
  | depth => exact ⟨congrArg₂ Answer.depth s.length_toList.symm s.isEmpty_eq, rfl⟩
  | limit => exact ⟨rfl, rfl⟩
  | list => exact ⟨rfl, rfl⟩
  | iterate source calls =>
      refine ⟨congrArg Answer.steps ?_, rfl⟩
      rw [Cursor.run_onList, Source.remaining_cursor]
      rfl
  | copy => exact ⟨congrArg Answer.stack s.ofList_toList.symm, rfl⟩
  | replace next => exact ⟨congrArg Answer.stack s.ofList_toList.symm, rfl⟩

/-- Entering asks one question of the limit, and the list asks the same one. -/
theorem Machine.enter_topFirst (m : Machine φ) (manner : Manner) (frame : φ) :
    (m.enter manner frame).answer = (m.topFirst.step (.enter manner frame)).1 ∧
      (m.enter manner frame).machine.topFirst = (m.topFirst.step (.enter manner frame)).2 := by
  have hlen : m.topFirst.frames.length = m.stack.depth := m.stack.length_toList
  have hlimit : m.topFirst.limit = m.stack.limit := rfl
  unfold Machine.enter TopFirst.step
  dsimp only
  rw [hlimit, hlen]
  cases hr : m.stack.limit.refusal? m.stack.depth with
  | some max =>
      obtain ⟨hmax, hle⟩ := Limit.refusal?_eq_some.mp hr
      rw [hmax]
      dsimp only
      rw [if_neg (Nat.not_lt.mpr hle)]
      exact ⟨rfl, rfl⟩
  | none =>
      have free := Limit.refusal?_eq_none.mp hr
      have hopen : (m.stack.push frame).topFirst (m.stack.depth :: m.guards.map Guard.entryDepth)
          = (m.topFirst.entered frame).2 := by
        rw [Stack.topFirst, Stack.toList_push, ← hlen]
        rfl
      cases hmax : m.stack.limit.max with
      | none => exact ⟨rfl, hopen⟩
      | some max =>
          dsimp only
          rw [if_pos (free max hmax)]
          exact ⟨rfl, hopen⟩

theorem Machine.toList_release_rtake (s : Stack φ) (guard : Guard φ) :
    (Machine.release s guard).1.toList = s.toList.rtake guard.entryDepth := by
  rw [Machine.toList_release, List.rtake, Stack.length_toList]

/-- **A move does to the machine what it does to the list,** and answers the same. -/
theorem Machine.step_topFirst (m : Machine φ) (mv : Move φ) :
    (m.step mv).answer = (m.topFirst.step mv).1 ∧
      (m.step mv).machine.topFirst = (m.topFirst.step mv).2 := by
  cases mv with
  | call c => exact m.stack.call_topFirst (m.guards.map Guard.entryDepth) c
  | enter manner frame => exact m.enter_topFirst manner frame
  | leave =>
      obtain ⟨stack, guards, forgotten⟩ := m
      cases guards with
      | nil => exact ⟨rfl, rfl⟩
      | cons guard rest =>
          refine ⟨rfl, ?_⟩
          show (Machine.release stack guard).1.topFirst (rest.map Guard.entryDepth) = _
          rw [Stack.topFirst, Machine.toList_release_rtake, Machine.limit_release]
          rfl
  | forget =>
      obtain ⟨stack, guards, forgotten⟩ := m
      cases guards with
      | nil => exact ⟨rfl, rfl⟩
      | cons guard rest => exact ⟨rfl, rfl⟩

/-! ## Runs -/

/-- Whichever way the stack is read, it reads as the list. -/
structure Stack.ReadsAs (s : Stack φ) (l : List φ) : Prop where
  depth : s.depth = l.length
  isEmpty : s.isEmpty = l.isEmpty
  top : s.top = l.headD Sentinel.native
  get : ∀ level, s.get level = l.getD level Sentinel.native
  frame : ∀ level, s.frame? level = l[level]?
  toList : s.toList = l

/-- A move that was answered as on the list and left a stack that reads as the list. -/
def Record.Shows (record : Record φ) (noted : Answer φ × TopFirst φ) : Prop :=
  record.result.answer = noted.1 ∧ record.result.machine.stack.ReadsAs noted.2.frames

/-- Two runs side by side: the list is that of the machine, and the moves so far were
shown alike. -/
def SideBySide (r : Recording φ) (t : TopFirst.Run φ) : Prop :=
  r.machine.topFirst = t.state ∧ List.Forall₂ Record.Shows r.history t.history

omit [DecidableEq φ] in
theorem Stack.readsAs_toList (s : Stack φ) : s.ReadsAs s.toList where
  depth := s.length_toList.symm
  isEmpty := s.isEmpty_eq
  top := s.top_eq
  get := s.get_eq
  frame := s.frame?_eq
  toList := rfl

theorem SideBySide.move {r : Recording φ} {t : TopFirst.Run φ} (h : SideBySide r t)
    (mv : Move φ) : SideBySide (r.move mv) (t.move mv) := by
  obtain ⟨same, shown⟩ := h
  obtain ⟨answer, after⟩ := r.machine.step_topFirst mv
  -- both sides now step from the list of the machine
  rw [same] at answer after
  refine ⟨after, List.Forall₂.cons ⟨answer, ?_⟩ shown⟩
  rw [← after]
  exact (r.machine.step mv).machine.stack.readsAs_toList

theorem SideBySide.enter {r : Recording φ} {t : TopFirst.Run φ} (h : SideBySide r t)
    (manner : Manner) (frame : φ) (insist : Bool) :
    OpensAlike SideBySide (r.enter manner frame insist) (t.enter manner frame insist) := by
  have moved := h.move (.enter manner frame)
  have answer := (r.machine.step_topFirst (.enter manner frame)).1
  rw [h.1] at answer
  unfold Recording.enter TopFirst.Run.enter
  rw [← answer]
  show OpensAlike SideBySide (match (r.machine.step (.enter manner frame)).answer.fault? with
    | none => _
    | some fault => _) _
  cases (r.machine.step (.enter manner frame)).answer.fault? with
  | none => exact .opened moved
  | some fault => exact .skipped moved

/-- **A machine cannot be told from the list.** Any program, from any machine, ends in the
outcome it has on the list; its moves are as many and are answered the same, one by one;
and after each of them, inside bodies too, the stack reads as the list does then. Levels
are unbounded here, so this covers every index that a machine word can hold. -/
theorem machine_runs_as_list (m : Machine φ) (p : Program (Act φ) (Block φ)) :
    (m.run p).2 = (m.topFirst.run p).2 ∧
      List.Forall₂ Record.Shows (m.run p).1.history (m.topFirst.run p).1.history := by
  have begun : SideBySide (φ := φ) { machine := m } { state := m.topFirst } :=
    ⟨rfl, List.Forall₂.nil⟩
  have alike : EndsAlike SideBySide (m.run p) (m.topFirst.run p) := by
    refine run_alike (h := Recording.host) (k := TopFirst.host) p ?_ ?_ ?_ _ _ begun
    · intro a _ r t h
      cases a with
      | call c => exact ⟨h.move (.call c), rfl⟩
      | fail message => exact ⟨h, rfl⟩
      | panic message => exact ⟨h, rfl⟩
    · intro b _ r t h
      cases b with
      | enter frame insist forget => exact h.enter .reachable frame insist
      | enterHidden frame insist => exact h.enter .hidden frame insist
      | attempt => exact .opened h
    · intro b _ o r t h
      cases b with
      | enter frame insist forget => exact ⟨h.move _, rfl⟩
      | enterHidden frame insist => exact ⟨h.move .leave, rfl⟩
      | attempt => exact ⟨h, rfl⟩
  obtain ⟨⟨-, shown⟩, same⟩ := alike
  exact ⟨same, shown⟩

end CallPath
