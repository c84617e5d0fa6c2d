import CallPath.Proofs.Origins
import CallPath.Proofs.Rendering
import CallPath.Proofs.TopFirst
import CallPath.Session.Frame

/-!
# The stack is the path of open calls

Entries nest and so do their bodies, whatever frames are on the stack. `openCalls` reads
this nesting off the history alone: which bodies are open, which frame each was entered
with, and which frames it pushed and has not popped. It never looks at the stack.

A body that pops only what it pushed itself cannot tell how deep the stack is below its own
frames, nor can its caller tell afterwards that it ran. So its frames stand on those of its
caller, and the stack is the path of the open calls with the frames of the beginning below
it (`stack_is_open_path`). The exit of a body is where this could go wrong: it counts from
the bottom, while the body may have left any number of frames on top. The depth that the
guard remembers is where the path of the caller ends (`OpenCalls.entries`), so the cut falls
between two calls, never inside one.
-/

namespace CallPath

variable {φ : Type}

/-! ## The rules -/

/-- Whether every pop took a frame that was pushed in the body that popped it. -/
def popsOwn (base : Nat) : List (Record φ) → Bool
  | [] => true
  | record :: past =>
      (match record.move with
        | .call .pop =>
            (origins base past).head?.all (fun origin => origin = .pushed (bodyNumber past))
        | _ => true) && popsOwn base past

theorem popsOwn_of_suffix {base : Nat} {past earlier : List (Record φ)}
    (h : popsOwn base past = true) (hs : earlier <:+ past) : popsOwn base earlier = true :=
  suffix_closed (fun _ _ later => (Bool.and_eq_true_iff.mp later).2) h hs

/-- Whether a move leaves it to guards, pushes and pops to change the stack, and forgets no
guard. -/
def Move.nests : Move φ → Bool
  | .call (.swap _) | .call (.set _ _) | .call .clear | .call (.replace _) | .forget => false
  | _ => true

/-! ## Open calls -/

/-- The bodies that are open, innermost first. Each has the frames that it pushed and has
not popped, newest first. -/
inductive OpenCalls (φ : Type) where
  /-- What runs outside all bodies. -/
  | outermost (own : List φ)
  /-- A body, the frame it was entered with, and the bodies around it. -/
  | body (own : List φ) (frame : φ) (around : OpenCalls φ)

namespace OpenCalls

/-- Changes the frames of the innermost body. -/
def mapOwn (f : List φ → List φ) : OpenCalls φ → OpenCalls φ
  | outermost own => outermost (f own)
  | body own frame around => body (f own) frame around

/-- Leaves the innermost body, and its frames with it. -/
def left : OpenCalls φ → OpenCalls φ
  | outermost own => outermost own
  | body _ _ around => around

/-- Forgets that the innermost body was entered: what it has belongs to the next one. -/
def forgotten : OpenCalls φ → OpenCalls φ
  | outermost own => outermost own
  | body own frame around => around.mapOwn (fun older => own ++ frame :: older)

/-- The frames of all bodies, the top first: those that a body has, then the one it was
entered with, then those of the bodies around it. -/
def path : OpenCalls φ → List φ
  | outermost own => own
  | body own frame around => own ++ frame :: around.path

/-- The frames that the bodies were entered with. -/
def frames : OpenCalls φ → List φ
  | outermost _ => []
  | body _ frame around => frame :: around.frames

/-- How deep the stack was when the bodies were entered, if there were `base` frames in the
beginning. -/
def entries (base : Nat) : OpenCalls φ → List Nat
  | outermost _ => []
  | body _ _ around => (around.path.length + base) :: around.entries base

/-- Which frames of the path were pushed. -/
def pushed : OpenCalls φ → List Bool
  | outermost own => own.map (fun _ => true)
  | body own _ around => own.map (fun _ => true) ++ false :: around.pushed

/-- The bodies around each body. -/
def callers : OpenCalls φ → List (OpenCalls φ)
  | outermost _ => []
  | body _ _ around => around :: around.callers

end OpenCalls

/-- The calls that are open after a history. -/
def openCalls : List (Record φ) → OpenCalls φ
  | [] => .outermost []
  | record :: past =>
      match record.move, record.result.answer.fault? with
      | .call (.push frame), _ => (openCalls past).mapOwn (frame :: ·)
      | .call .pop, _ => (openCalls past).mapOwn List.tail
      | .enter _ frame, none => .body [] frame (openCalls past)
      | .leave, _ => (openCalls past).left
      | .forget, _ => (openCalls past).forgotten
      | _, _ => openCalls past

namespace OpenCalls

theorem callers_mapOwn (f : List φ → List φ) (c : OpenCalls φ) :
    (c.mapOwn f).callers = c.callers := by
  cases c <;> rfl

theorem frames_mapOwn (f : List φ → List φ) (c : OpenCalls φ) :
    (c.mapOwn f).frames = c.frames := by
  cases c <;> rfl

theorem entries_mapOwn (base : Nat) (f : List φ → List φ) (c : OpenCalls φ) :
    (c.mapOwn f).entries base = c.entries base := by
  cases c <;> rfl

theorem path_push (frame : φ) (c : OpenCalls φ) :
    (c.mapOwn (frame :: ·)).path = frame :: c.path := by
  cases c <;> rfl

theorem pushed_push (frame : φ) (c : OpenCalls φ) :
    (c.mapOwn (frame :: ·)).pushed = true :: c.pushed := by
  cases c <;> rfl

/-- If the top frame was pushed, the innermost body has it, and a pop takes it from there. -/
theorem pop_pushed (c : OpenCalls φ) (below : List φ)
    (top : ∀ b ∈ (c.pushed ++ List.replicate below.length false).head?, b = true) :
    (c.mapOwn List.tail).path ++ below = (c.path ++ below).tail ∧
      (c.mapOwn List.tail).pushed ++ List.replicate below.length false
        = (c.pushed ++ List.replicate below.length false).tail := by
  cases c with
  | outermost own =>
      cases own with
      | nil =>
          cases below with
          -- nothing is on the stack at all, and the pop fails
          | nil => exact ⟨rfl, rfl⟩
          | cons frame below => exact absurd (top false rfl) Bool.false_ne_true
      | cons frame own => exact ⟨rfl, rfl⟩
  | body own frame around =>
      cases own with
      -- the top is the frame that the body was entered with
      | nil => exact absurd (top false rfl) Bool.false_ne_true
      | cons frame own => exact ⟨rfl, rfl⟩

theorem length_pushed (c : OpenCalls φ) : c.pushed.length = c.path.length := by
  induction c with
  | outermost own => exact List.length_map _
  | body own frame around ih =>
      rw [pushed, path, List.length_append, List.length_append, List.length_map,
        List.length_cons, List.length_cons, ih]

end OpenCalls

/-! ## The stack after each move -/

/-- Whether a slot was filled by a push. -/
def Origin.isPush : Origin → Bool
  | pushed _ => true
  | given | entered _ => false

/-- What the history tells of a machine: the open calls have the frames that were not there
in the beginning, their guards remember where the paths of their callers end, and the
slots that were filled by pushes are the ones the bodies have. -/
structure Machine.Mirrors (m : Machine φ) (start : Stack φ) (past : List (Record φ)) : Prop where
  path : m.stack.toList = (openCalls past).path ++ start.toList
  frames : m.guards.map Guard.frame = (openCalls past).frames
  entries : m.guards.map Guard.entryDepth = (openCalls past).entries start.depth
  pushed : (origins start.depth past).map Origin.isPush
    = (openCalls past).pushed ++ List.replicate start.depth false

/-- A move that changes neither the stack nor the guards, and that the history passes over. -/
theorem Machine.Mirrors.idle {m m' : Machine φ} {start : Stack φ} {past : List (Record φ)}
    {record : Record φ} (h : m.Mirrors start past) (stack : m'.stack = m.stack)
    (guards : m'.guards = m.guards) (calls : openCalls (record :: past) = openCalls past)
    (filled : origins start.depth (record :: past) = origins start.depth past) :
    m'.Mirrors start (record :: past) where
  path := by rw [stack, calls]; exact h.path
  frames := by rw [guards, calls]; exact h.frames
  entries := by rw [guards, calls]; exact h.entries
  pushed := by rw [filled, calls]; exact h.pushed

theorem Machine.Mirrors.depth {m : Machine φ} {start : Stack φ} {past : List (Record φ)}
    (h : m.Mirrors start past) : m.stack.depth = (openCalls past).path.length + start.depth := by
  rw [← Stack.length_toList, h.path, List.length_append, Stack.length_toList]

variable [Sentinel φ] [DecidableEq φ]

theorem Machine.Mirrors.push {m : Machine φ} {start : Stack φ} {past : List (Record φ)}
    (h : m.Mirrors start past) (frame : φ) :
    (m.step (.call (.push frame))).machine.Mirrors start
      (m.record (.call (.push frame)) :: past) where
  path := by
    show (m.stack.push frame).toList = ((openCalls past).mapOwn (frame :: ·)).path ++ start.toList
    rw [Stack.toList_push, h.path, OpenCalls.path_push]
    rfl
  frames := h.frames.trans (OpenCalls.frames_mapOwn _ _).symm
  entries := h.entries.trans (OpenCalls.entries_mapOwn _ _ _).symm
  pushed := by
    show true :: (origins start.depth past).map Origin.isPush
      = ((openCalls past).mapOwn (frame :: ·)).pushed ++ _
    rw [h.pushed, OpenCalls.pushed_push]
    rfl

/-- A pop takes a frame from the innermost body, if it pushed the top. -/
theorem Machine.Mirrors.pop {m : Machine φ} {start : Stack φ} {past : List (Record φ)}
    (h : m.Mirrors start past)
    (own : ∀ origin ∈ (origins start.depth past).head?, origin.isPush = true) :
    (m.step (.call .pop)).machine.Mirrors start (m.record (.call .pop) :: past) := by
  have filled := h.pushed
  rw [← Stack.length_toList] at filled own
  have top : ∀ b ∈ ((openCalls past).pushed ++ List.replicate start.toList.length false).head?,
      b = true := by
    rw [← filled, List.head?_map]
    intro b hb
    obtain ⟨origin, ho, rfl⟩ := Option.map_eq_some_iff.mp hb
    exact own origin ho
  obtain ⟨path, pushed⟩ := (openCalls past).pop_pushed start.toList top
  refine ⟨?_, ?_, ?_, ?_⟩
  · show (m.stack.call .pop).stack.toList = ((openCalls past).mapOwn List.tail).path ++ _
    rw [Stack.toList_call_pop, h.path, path]
  · exact h.frames.trans (OpenCalls.frames_mapOwn _ _).symm
  · exact h.entries.trans (OpenCalls.entries_mapOwn _ _ _).symm
  · show (origins start.depth past).tail.map Origin.isPush
      = ((openCalls past).mapOwn List.tail).pushed ++ _
    rw [← Stack.length_toList, List.map_tail, filled, pushed]

theorem openCalls_entered {m : Machine φ} {manner : Manner} {frame : φ}
    (h : (m.enter manner frame).answer.fault? = none) (past : List (Record φ)) :
    openCalls (m.record (.enter manner frame) :: past) = .body [] frame (openCalls past) := by
  simp only [openCalls, Machine.record, Machine.step, h]

theorem openCalls_refused {m : Machine φ} {manner : Manner} {frame : φ} {fault : Fault}
    (h : (m.enter manner frame).answer.fault? = some fault) (past : List (Record φ)) :
    openCalls (m.record (.enter manner frame) :: past) = openCalls past := by
  simp only [openCalls, Machine.record, Machine.step, h]

/-- An entry opens a body on top of all others, or is refused and opens none. -/
theorem Machine.Mirrors.enter {m : Machine φ} {start : Stack φ} {past : List (Record φ)}
    (h : m.Mirrors start past) (manner : Manner) (frame : φ) :
    (m.step (.enter manner frame)).machine.Mirrors start
      (m.record (.enter manner frame) :: past) := by
  show (m.enter manner frame).machine.Mirrors start _
  rcases m.enter_cases manner frame with ⟨⟨fault, hf⟩, hm⟩ | ⟨hf, hm⟩
  · rw [hm]
    exact h.idle rfl rfl (openCalls_refused hf past) (origins_refused hf _ past)
  · have filled := origins_entered hf start.depth past
    have opened := openCalls_entered hf past
    rw [hm]
    refine ⟨?_, ?_, ?_, ?_⟩
    · rw [opened, Stack.toList_push, h.path]
      rfl
    · rw [opened, List.map_cons, h.frames]
      rfl
    · rw [opened, List.map_cons, h.entries, h.depth]
      rfl
    · rw [opened, filled, List.map_cons, h.pushed]
      rfl

theorem map_rtake {α β : Type} (f : α → β) (l : List α) (n : Nat) :
    (l.rtake n).map f = (l.map f).rtake n := by
  rw [List.rtake, List.rtake, List.map_drop, List.length_map]

/-- **An exit cuts between two calls.** The depth that the guard remembers is where the path
of its caller ends. -/
theorem Machine.Mirrors.leave {m : Machine φ} {start : Stack φ} {past : List (Record φ)}
    (h : m.Mirrors start past) :
    m.leave.machine.Mirrors start (m.record .leave :: past) := by
  obtain ⟨stack, guards, forgotten⟩ := m
  have frames := h.frames
  have entries := h.entries
  have path := h.path
  have pushed := h.pushed
  cases guards with
  | nil =>
      cases hc : openCalls past with
      | outermost own =>
          refine h.idle rfl rfl ?_ rfl
          show (openCalls past).left = _
          rw [hc]
          rfl
      | body own frame around => rw [hc] at frames; cases frames
  | cons guard rest =>
      cases hc : openCalls past with
      | outermost own => rw [hc] at frames; cases frames
      | body own frame around =>
          rw [hc] at frames entries path pushed
          obtain ⟨-, frames⟩ := List.cons.inj frames
          obtain ⟨entry, entries⟩ := List.cons.inj entries
          have left : openCalls (Machine.record ⟨stack, guard :: rest, forgotten⟩ .leave :: past)
              = around := congrArg OpenCalls.left hc
          refine ⟨?_, ?_, ?_, ?_⟩
          · rw [left]
            show (Machine.release stack guard).1.toList = _
            -- what the body has, left over or not, is all above the path of its caller
            have split : stack.toList = (own ++ [frame]) ++ (around.path ++ start.toList) := by
              rw [path, OpenCalls.path]
              simp only [List.append_assoc, List.cons_append, List.nil_append]
            have size : (around.path ++ start.toList).length = guard.entryDepth := by
              rw [List.length_append, Stack.length_toList, entry]
            rw [Machine.toList_release_rtake]
            exact rtake_of_append split size
          · rw [left]
            exact frames
          · rw [left]
            exact entries
          · rw [left]
            show ((origins start.depth past).rtake guard.entryDepth).map Origin.isPush = _
            have split : (origins start.depth past).map Origin.isPush
                = (own.map (fun _ => true) ++ [false])
                  ++ (around.pushed ++ List.replicate start.depth false) := by
              rw [pushed, OpenCalls.pushed]
              simp only [List.append_assoc, List.cons_append, List.nil_append]
            have size : (around.pushed ++ List.replicate start.depth false).length
                = guard.entryDepth := by
              rw [List.length_append, List.length_replicate, OpenCalls.length_pushed, entry]
            rw [map_rtake]
            exact rtake_of_append split size

/-! ## Whole histories -/

/-- **Every move keeps the path,** if it nests and pops only what its body pushed. -/
theorem Machine.Mirrors.step {m : Machine φ} {start : Stack φ} {past : List (Record φ)}
    (h : m.Mirrors start past) {mv : Move φ} (nests : mv.nests = true)
    (own : popsOwn start.depth (m.record mv :: past) = true) :
    (m.step mv).machine.Mirrors start (m.record mv :: past) := by
  cases mv with
  | call c =>
      cases c with
      | push frame => exact h.push frame
      | pop =>
          refine h.pop (fun origin ho => ?_)
          obtain ⟨top, -⟩ := Bool.and_eq_true_iff.mp own
          have top : (origins start.depth past).head?.all
              (fun origin => origin = .pushed (bodyNumber past)) = true := top
          rw [Option.mem_def.mp ho] at top
          rw [of_decide_eq_true top]
          rfl
      | swap frame => cases nests
      | set level frame => cases nests
      | clear => cases nests
      | replace next => cases nests
      | get level => exact h.idle rfl rfl rfl rfl
      | top => exact h.idle rfl rfl rfl rfl
      | frame level => exact h.idle rfl rfl rfl rfl
      | isNative frame => exact h.idle rfl rfl rfl rfl
      | depth => exact h.idle rfl rfl rfl rfl
      | limit => exact h.idle rfl rfl rfl rfl
      | list => exact h.idle rfl rfl rfl rfl
      | iterate source calls => exact h.idle rfl rfl rfl rfl
      | copy => exact h.idle rfl rfl rfl rfl
  | enter manner frame => exact h.enter manner frame
  | leave => exact h.leave
  | forget => cases nests

/-- What a history tells of the machine holds at its end, and so at every point of it. -/
theorem Happened.mirrors {start : Stack φ} {past : List (Record φ)}
    (h : Happened { stack := start } past)
    (nests : ∀ record ∈ past, record.move.nests = true)
    (own : popsOwn start.depth past = true) :
    (now { stack := start } past).Mirrors start past := by
  induction h with
  | nil => exact ⟨rfl, rfl, rfl, List.map_replicate⟩
  | @move past mv _ ih =>
      have before := ih (fun record hr => nests record (List.mem_cons_of_mem _ hr))
        (Bool.and_eq_true_iff.mp own).2
      exact before.step (nests _ List.mem_cons_self) own

/-- The calls around the open bodies are those that were open when they were entered. -/
theorem Happened.callers {start : Machine φ} {past : List (Record φ)} (h : Happened start past) :
    (openCalls past).callers = (openings past).map openCalls := by
  induction h with
  | nil => rfl
  | @move past mv _ ih =>
      cases mv with
      | call c =>
          -- a call changes the frames of the innermost body at most
          refine Eq.trans ?_ ih
          cases c with
          | push frame => exact OpenCalls.callers_mapOwn _ _
          | pop => exact OpenCalls.callers_mapOwn _ _
          | _ => rfl
      | enter manner frame =>
          rcases (now start past).enter_cases manner frame with ⟨⟨fault, hf⟩, -⟩ | ⟨hf, -⟩
          · rw [openings_refused hf, openCalls_refused hf, ih]
          · rw [openings_entered hf, openCalls_entered hf, List.map_cons, ← ih]
            rfl
      | leave =>
          show (openCalls past).left.callers = (openings past).tail.map openCalls
          rw [List.map_tail, ← ih]
          cases openCalls past <;> rfl
      | forget =>
          show (openCalls past).forgotten.callers = (openings past).tail.map openCalls
          rw [List.map_tail, ← ih]
          cases openCalls past with
          | outermost own => rfl
          | body own frame around => exact OpenCalls.callers_mapOwn _ _

/-- When a guard is about to be left, the calls that are open after that are those that were
open when it was entered. -/
theorem Happened.open_again {start : Machine φ} {earlier opening : List (Record φ)}
    (h : Happened start earlier) (innermost : (openings earlier).head? = some opening) :
    (openCalls earlier).left = openCalls opening := by
  have around := congrArg List.head? h.callers
  rw [List.head?_map, innermost] at around
  cases hc : openCalls earlier with
  | outermost own => rw [hc] at around; cases around
  | body own frame caller => rw [hc] at around; exact Option.some.inj around

/-- **What a caller finds again.** When a guard is left, the frames are those that were there
when it was entered. -/
theorem Happened.found_again {start : Stack φ} {earlier : List (Record φ)}
    (h : Happened { stack := start } earlier)
    (nests : ∀ record ∈ earlier, record.move.nests = true)
    (own : popsOwn start.depth earlier = true) {guard : Guard φ} {guards : List (Guard φ)}
    (hguards : (now { stack := start } earlier).guards = guard :: guards) :
    ∃ opening inside manner frame, (openings earlier).head? = some opening ∧
      earlier = inside ++ (now { stack := start } opening).record (.enter manner frame) :: opening ∧
      (now { stack := start } earlier).leave.machine.stack.toList
        = (now { stack := start } opening).stack.toList := by
  obtain ⟨opening, innermost, -⟩ := h.innermost rfl hguards
  obtain ⟨inside, manner, frame, -, split⟩ :=
    h.entry_of_opening (List.mem_of_mem_head? innermost)
  refine ⟨opening, inside, manner, frame, innermost, split, ?_⟩
  have older := (h.suffix_of_opening (List.mem_of_mem_head? innermost)).1
  have after := (h.mirrors nests own).leave.path
  have before := ((h.of_suffix older).mirrors (fun record hr => nests record (older.subset hr))
    (popsOwn_of_suffix own older)).path
  rw [after, before, ← h.open_again innermost]
  rfl

/-- **The stack is the path of open calls.** Take any program that changes the stack only by
entering frames, forgetting no guard, and by pushes and pops, and suppose that no pop takes
anything but what was pushed in its own body. Then at every point of its run, whatever was
refused, failed or caught by then, the frames are those of the open bodies, innermost first,
and below them those of the beginning; the bodies are those of the live guards; and the text
of a copy made there lists just these frames. Whenever a guard is left, the frames are
those that were there when it was entered. -/
theorem stack_is_open_path (s : Stack φ) (p : Program (Act φ) (Block φ))
    (nests : ∀ mv ∈ p.moves, mv.nests = true)
    (own : popsOwn s.depth (({ stack := s } : Machine φ).run p).1.history = true) :
    let start : Machine φ := { stack := s }
    (∀ past, past <:+ (start.run p).1.history →
      (now start past).stack.toList = (openCalls past).path ++ s.toList ∧
      (now start past).guards.map Guard.frame = (openCalls past).frames ∧
      ∀ text : φ → Option String, ∃ copy,
        ((now start past).step (.call .copy)).answer = .stack copy ∧
        copy.render? text = (((openCalls past).path ++ s.toList).mapM text).map traceText) ∧
    ∀ exit earlier guard guards, exit :: earlier <:+ (start.run p).1.history →
      exit.move = .leave → exit.before.guards = guard :: guards →
      ∃ opening inside manner frame, (openings earlier).head? = some opening ∧
        earlier = inside ++ (now start opening).record (.enter manner frame) :: opening ∧
        exit.result.machine.stack.toList = (now start opening).stack.toList := by
  intro start
  obtain ⟨happened, -, made⟩ := run_keeps_history start p
  have all_nest : ∀ past, past <:+ (start.run p).1.history →
      ∀ record ∈ past, record.move.nests = true :=
    fun past hs record hr => nests _ (made record (hs.subset hr))
  refine ⟨?_, ?_⟩
  · intro past hs
    have mirrors := (happened.of_suffix hs).mirrors (all_nest past hs) (popsOwn_of_suffix own hs)
    refine ⟨mirrors.path, mirrors.frames, fun text => ⟨(now start past).stack, rfl, ?_⟩⟩
    rw [Stack.render?_eq, mirrors.path]
  · intro exit earlier guard guards hs hleave hguards
    obtain ⟨hearlier, hexit⟩ := happened.record_at hs hleave
    rw [hexit] at hguards ⊢
    exact (happened.of_suffix hearlier).found_again (all_nest _ hearlier)
      (popsOwn_of_suffix own hearlier) hguards

/-- A body that is refused an entry, leaves a frame behind and fails, and is caught. -/
def caughtLeak : Program (Act Frame) (Block Frame) :=
  .act (.call (.push (.numbered 1))) <|
  .block .attempt
    (.block (.enter (.numbered 2) true false)
      (.act (.call (.push (.numbered 3))) <|
        .act (.call (.push (.numbered 4))) <|
        .block (.enterHidden (.numbered 5) false) .done <|
        .act (.call .pop) <|
        .act (.fail "lost") .done)
      .done) <|
  .act (.call .pop) .done

theorem open_path_of_caughtLeak :
    let s : Stack Frame := .ofList { max := some 5 } [.numbered 0]
    let start : Machine Frame := { stack := s }
    let history := (start.run caughtLeak).1.history
    (∀ mv ∈ caughtLeak.moves, mv.nests = true) ∧ popsOwn s.depth history = true ∧
      (now start (history.drop 2)).stack.toList
        = [.numbered 3, .numbered 2, .numbered 1, .numbered 0] := by
  intro s start history
  have nests : ∀ mv ∈ caughtLeak.moves, mv.nests = true := List.all_eq_true.mp rfl
  have own : popsOwn s.depth history = true := by decide
  have failed := (stack_is_open_path s caughtLeak nests own).1 _ (List.drop_suffix 2 history)
  exact ⟨nests, own, failed.1⟩

end CallPath
