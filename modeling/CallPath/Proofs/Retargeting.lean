import CallPath.Proofs.CallSequences
import CallPath.Session.Frame

/-!
# Writes in place

A `set` puts a frame in the place of another, and a `swap` is the same at the top, with the old
frame for an answer. On the view from the top both are one write into a list
(`toList_call_write`), and everything else follows from there.

The long way round to the same end is to pop what lies above, to swap, and to push again what was
popped (`after_rebuild`).

One write is answered by the depth, which no write changes, and by the frame at its target
(`answer_call_write`), which only writes at that target change. So sequences can be taken apart
by target: what a target sees of a sequence is what it would see if it were written alone
(`report_at`), and in the end it holds what the last write that was not refused put there
(`get_after_writes`).
-/

namespace CallPath

/-- A call that puts a frame in the place of another. -/
inductive Write (φ : Type) where
  | set (level : Nat) (frame : φ)
  | swap (frame : φ)
  deriving DecidableEq

variable {φ : Type}

namespace Write

def call : Write φ → Call φ
  | set level frame => .set level frame
  | swap frame => .swap frame

/-- The level that is written. -/
def target : Write φ → Nat
  | set level _ => level
  | swap _ => 0

/-- The frame that is written. -/
def frame : Write φ → φ
  | set _ frame | swap frame => frame

/-- The same write with another frame. -/
def withFrame : Write φ → φ → Write φ
  | set level _, frame => set level frame
  | swap _, frame => swap frame

/-- How a write is answered on a stack of `depth` frames, of which `old` is the one at its
target. -/
def answer (depth : Nat) : Write φ → Option φ → Answer φ
  | set _ _, some _ => .done
  | swap _, some old => .frame old
  | set level _, none => .fault (.outOfBounds level depth)
  | swap _, none => .fault (.emptyStack "swap")

theorem target_withFrame (w : Write φ) (frame : φ) : (w.withFrame frame).target = w.target := by
  cases w <;> rfl

theorem frame_withFrame (w : Write φ) (frame : φ) : (w.withFrame frame).frame = frame := by
  cases w <;> rfl

theorem call_ne_replace (w : Write φ) (next : Stack φ) : w.call ≠ .replace next := by
  cases w <;> exact nofun

theorem fault?_answer (depth : Nat) (w : Write φ) (old : Option φ) :
    (w.answer depth old).fault?.isNone = old.isSome := by
  cases w <;> cases old <;> rfl

end Write

namespace Stack

variable [Sentinel φ] [DecidableEq φ]

/-! ## What is read -/

omit [DecidableEq φ] in
theorem frame?_of_lt {s : Stack φ} {level : Nat} (inside : level < s.depth) :
    s.frame? level = some (s.get level) := by
  rw [get, frame?_eq, List.getElem?_eq_getElem (by rwa [length_toList])]
  rfl

omit [DecidableEq φ] in
/-- A stack is told by its depth, its limit, and what is read from it. -/
theorem ext_get {s t : Stack φ} (deep : s.depth = t.depth)
    (same : ∀ level, s.get level = t.get level) (limit : s.limit = t.limit) : s = t := by
  refine ext_toList (List.ext_getElem? (fun level => ?_)) limit
  rw [← frame?_eq, ← frame?_eq]
  rcases Nat.lt_or_ge level s.depth with inside | beyond
  · rw [frame?_of_lt inside, frame?_of_lt (deep ▸ inside), same level]
  · rw [frame?_eq_none.mpr beyond, frame?_eq_none.mpr (deep ▸ beyond)]

/-! ## One write -/

theorem toList_call_write (s : Stack φ) (w : Write φ) :
    (s.call w.call).stack.toList = s.toList.set w.target w.frame := by
  cases w with
  | set level frame => exact s.toList_call_set level frame
  | swap frame => exact s.toList_call_swap frame

theorem depth_call_write (s : Stack φ) (w : Write φ) : (s.call w.call).stack.depth = s.depth := by
  rw [← length_toList, toList_call_write, List.length_set, length_toList]

theorem limit_call_write (s : Stack φ) (w : Write φ) : (s.call w.call).stack.limit = s.limit :=
  limit_call w.call_ne_replace

/-- **A write is answered by the depth and by the frame at its target.** -/
theorem answer_call_write (s : Stack φ) (w : Write φ) :
    (s.call w.call).answer = w.answer s.depth (s.frame? w.target) := by
  rw [frame?_eq]
  cases hs : s.set? w.target w.frame with
  | none =>
      rw [List.getElem?_eq_none (set?_eq_none.mp hs)]
      cases w with
      | set level frame => exact congrArg Reply.answer (call_set_of_none hs)
      | swap frame => exact congrArg Reply.answer (call_swap_of_none ((s.swap?_eq frame).trans hs))
  | some written =>
      rw [(set?_eq_some.mp hs).1]
      cases w with
      | set level frame => exact congrArg Reply.answer (call_set_of_some hs)
      | swap frame => exact congrArg Reply.answer (call_swap_of_some ((s.swap?_eq frame).trans hs))

theorem accepts_iff (s : Stack φ) (w : Write φ) :
    (s.call w.call).answer.fault?.isNone ↔ w.target < s.depth := by
  rw [answer_call_write, Write.fault?_answer, frame?_eq, isSome_getElem?, length_toList]

theorem call_write_refused {s : Stack φ} {w : Write φ} (beyond : s.depth ≤ w.target) :
    (s.call w.call).stack = s := by
  refine ext_toList ?_ (s.limit_call_write w)
  rw [toList_call_write, List.set_eq_of_length_le (by rwa [length_toList])]

theorem frame?_call_write (s : Stack φ) (w : Write φ) {level : Nat} (other : w.target ≠ level) :
    (s.call w.call).stack.frame? level = s.frame? level := by
  rw [frame?_eq, frame?_eq, toList_call_write, List.getElem?_set_ne other]

theorem get_call_write {s : Stack φ} {w : Write φ} (inside : w.target < s.depth) :
    (s.call w.call).stack.get w.target = w.frame := by
  rw [get, frame?_eq, toList_call_write, List.getElem?_set_self (by rwa [length_toList])]
  rfl

/-- A write is taken back by writing what was there. Where there was nothing, the write was
refused, and so is the one that takes it back. -/
theorem call_withFrame (s : Stack φ) (w : Write φ) :
    ((s.call w.call).stack.call (w.withFrame (s.get w.target)).call).stack = s := by
  refine ext_toList ?_ ((limit_call_write _ _).trans (s.limit_call_write w))
  rw [toList_call_write, toList_call_write, Write.target_withFrame, Write.frame_withFrame,
    List.set_set]
  rcases Nat.lt_or_ge w.target s.toList.length with inside | beyond
  · rw [get, frame?_eq, List.getElem?_eq_getElem inside, Option.getD_some, List.set_getElem_self]
  · exact List.set_eq_of_length_le beyond

/-! ## Unwinding and rebuilding -/

/-- The frames that pops bring up, the top first. -/
def unwound (s : Stack φ) (level : Nat) : List φ :=
  (s.answers (List.replicate level .pop)).flatMap Answer.kept

/-- Pops what lies above a level, swaps, and pushes again what was popped, the last first. -/
def rebuild (s : Stack φ) (level : Nat) (frame : φ) : List (Call φ) :=
  List.replicate level .pop ++ .swap frame :: (s.unwound level).reverse.map .push

theorem answers_unwinding {s : Stack φ} {level : Nat} (inside : level ≤ s.depth) :
    s.answers (List.replicate level .pop) = (s.unwound level).map .frame ∧
      s.unwound level = s.toList.take level := by
  have popped : s.answers (List.replicate level .pop) = (s.toList.take level).map .frame := by
    rw [answers_pops, Nat.sub_eq_zero_of_le inside, List.replicate_zero, List.append_nil]
  have brought : s.unwound level = s.toList.take level := by
    rw [unwound, popped, List.flatMap_map]
    exact List.flatMap_singleton' _
  exact ⟨by rw [brought, popped], brought⟩

/-- **A write is as good as unwinding and rebuilding.** -/
theorem after_rebuild {s : Stack φ} {level : Nat} (frame : φ) (inside : level ≤ s.depth) :
    s.after (s.rebuild level frame) = (s.call (.set level frame)).stack := by
  refine ext_toList ?_ ?_
  · rw [rebuild, after_append, after_cons, toList_after_pushes, toList_call_swap,
      toList_after_pops, List.reverse_reverse, (answers_unwinding inside).2, toList_call_set]
    -- the write at the top of what lies below the upper part is a write behind the upper part
    have upper : (s.toList.take level).length = level := by
      rw [List.length_take, length_toList, Nat.min_eq_left inside]
    conv_rhs => rw [← List.take_append_drop level s.toList,
      List.set_append_right _ _ (Nat.le_of_eq upper), upper, Nat.sub_self]
  · rw [limit_call (c := .set level frame) nofun]
    refine limit_after s (fun c hc => ?_)
    rcases List.mem_append.mp hc with above | hc
    · rw [List.eq_of_mem_replicate above]
      exact nofun
    · rcases List.mem_cons.mp hc with rfl | back
      · exact nofun
      · obtain ⟨frame, -, rfl⟩ := List.mem_map.mp back
        exact nofun

/-- The swap on the way returns what was at the level. -/
theorem answer_swap_unwound {s : Stack φ} {level : Nat} (frame : φ) (inside : level < s.depth) :
    ((s.after (List.replicate level .pop)).call (.swap frame)).answer = .frame (s.get level) := by
  have met : (s.after (List.replicate level .pop)).frame? 0 = some (s.get level) := by
    rw [frame?_eq, toList_after_pops, List.getElem?_drop, Nat.add_zero, ← frame?_eq,
      frame?_of_lt inside]
  have answered := (s.after (List.replicate level .pop)).answer_call_write (.swap frame)
  rw [show (Write.swap frame).target = 0 from rfl, met] at answered
  exact answered

theorem answer_set {s : Stack φ} {level : Nat} (frame : φ) (inside : level < s.depth) :
    (s.call (.set level frame)).answer = .done := by
  have answered := s.answer_call_write (.set level frame)
  rw [show (Write.set level frame).target = level from rfl, frame?_of_lt inside] at answered
  exact answered

/-! ## Writes one after another -/

/-- Writes together with their answers. -/
def report (s : Stack φ) (ws : List (Write φ)) : List (Write φ × Answer φ) :=
  ws.zip (s.answers (ws.map Write.call))

/-- The writes that are not refused. -/
def accepted (s : Stack φ) (ws : List (Write φ)) : List (Write φ) :=
  ((s.report ws).filter (·.2.fault?.isNone)).map Prod.fst

/-- The writes that take others back, the last one first, each with the frame that was at the
target before. -/
def undo (s : Stack φ) : List (Write φ) → List (Write φ)
  | [] => []
  | w :: rest => (s.call w.call).stack.undo rest ++ [w.withFrame (s.get w.target)]

theorem report_cons (s : Stack φ) (w : Write φ) (rest : List (Write φ)) :
    s.report (w :: rest) = (w, (s.call w.call).answer) :: (s.call w.call).stack.report rest := rfl

theorem depth_after_writes (s : Stack φ) (ws : List (Write φ)) :
    (s.after (ws.map Write.call)).depth = s.depth := by
  induction ws generalizing s with
  | nil => rfl
  | cons w rest ih => exact (ih _).trans (s.depth_call_write w)

theorem limit_after_writes (s : Stack φ) (ws : List (Write φ)) :
    (s.after (ws.map Write.call)).limit = s.limit := by
  refine s.limit_after (fun c hc => ?_)
  obtain ⟨w, -, rfl⟩ := List.mem_map.mp hc
  exact w.call_ne_replace

/-- The depth says which writes are refused. -/
theorem accepted_eq (s : Stack φ) (ws : List (Write φ)) :
    s.accepted ws = ws.filter (·.target < s.depth) := by
  induction ws generalizing s with
  | nil => rfl
  | cons w rest ih =>
      have later := ih (s.call w.call).stack
      rw [depth_call_write] at later
      rw [accepted, report_cons]
      by_cases inside : w.target < s.depth
      · rw [List.filter_cons, if_pos ((s.accepts_iff w).mpr inside), List.filter_cons,
          if_pos (decide_eq_true inside), ← later]
        rfl
      · rw [List.filter_cons, if_neg (mt (s.accepts_iff w).mp inside), List.filter_cons,
          if_neg (mt of_decide_eq_true inside), ← later]
        rfl

/-- **Writes that are refused have no effect,** on the stack or on the other writes. -/
theorem without_refused (s : Stack φ) (ws : List (Write φ)) :
    s.after ((s.accepted ws).map Write.call) = s.after (ws.map Write.call) ∧
      s.report (s.accepted ws) = (s.report ws).filter (·.2.fault?.isNone) := by
  induction ws generalizing s with
  | nil => exact ⟨rfl, rfl⟩
  | cons w rest ih =>
      have later := ih (s.call w.call).stack
      rw [accepted_eq, depth_call_write] at later
      rw [accepted_eq, report_cons, List.map_cons, after_cons]
      by_cases inside : w.target < s.depth
      · rw [List.filter_cons, if_pos (decide_eq_true inside), List.filter_cons,
          if_pos ((s.accepts_iff w).mpr inside)]
        exact ⟨later.1, congrArg (_ :: ·) later.2⟩
      · rw [List.filter_cons, if_neg (mt of_decide_eq_true inside), List.filter_cons,
          if_neg (mt (s.accepts_iff w).mp inside)]
        rw [call_write_refused (Nat.le_of_not_lt inside)] at later ⊢
        exact later

/-- **A level holds what was last written there.** -/
theorem get_after_writes (s : Stack φ) (ws : List (Write φ)) (level : Nat) :
    (s.after (ws.map Write.call)).get level
      = ((((s.accepted ws).filter (·.target = level)).getLast?).map Write.frame).getD
          (s.get level) := by
  induction ws generalizing s with
  | nil => rfl
  | cons w rest ih =>
      have later := ih (s.call w.call).stack
      rw [accepted_eq, depth_call_write] at later
      rw [accepted_eq, List.map_cons, after_cons, later]
      by_cases inside : w.target < s.depth
      · rw [List.filter_cons, if_pos (decide_eq_true inside), List.filter_cons]
        by_cases here : w.target = level
        · subst here
          rw [if_pos (decide_eq_true rfl), List.getLast?_cons,
            get_call_write inside]
          cases List.getLast? _ <;> rfl
        · rw [if_neg (mt of_decide_eq_true here), get, get, s.frame?_call_write w here]
      · rw [List.filter_cons, if_neg (mt of_decide_eq_true inside),
          call_write_refused (Nat.le_of_not_lt inside)]

/-- Writes at one level cannot tell apart stacks of one depth that agree at the level. -/
theorem report_congr {s t : Stack φ} {level : Nat} (deep : s.depth = t.depth)
    (same : s.frame? level = t.frame? level) {ws : List (Write φ)}
    (there : ∀ w ∈ ws, w.target = level) : s.report ws = t.report ws := by
  induction ws generalizing s t with
  | nil => rfl
  | cons w rest ih =>
      have here : w.target = level := there w List.mem_cons_self
      have written : (s.call w.call).stack.frame? level = (t.call w.call).stack.frame? level := by
        rw [frame?_eq, frame?_eq] at same
        rw [frame?_eq, frame?_eq, toList_call_write, toList_call_write, List.getElem?_set,
          List.getElem?_set, length_toList, length_toList, deep, same]
      rw [report_cons, report_cons, answer_call_write, answer_call_write, here, same, deep,
        ih (by rw [depth_call_write, depth_call_write, deep]) written
          (fun w hw => there w (List.mem_cons_of_mem _ hw))]

/-- **A target sees only the writes that are meant for it.** -/
theorem report_at (s : Stack φ) (ws : List (Write φ)) (level : Nat) :
    (s.report ws).filter (·.1.target = level) = s.report (ws.filter (·.target = level)) := by
  induction ws generalizing s with
  | nil => rfl
  | cons w rest ih =>
      rw [report_cons, List.filter_cons, List.filter_cons]
      by_cases here : w.target = level
      · rw [if_pos (decide_eq_true here), if_pos (decide_eq_true here), ih]
        rfl
      · rw [if_neg (mt of_decide_eq_true here), if_neg (mt of_decide_eq_true here), ih]
        exact report_congr (s.depth_call_write w) (s.frame?_call_write w here)
          (fun w hw => of_decide_eq_true (List.mem_filter.mp hw).2)

/-- **Writes with different targets commute.** Sequences that are the same at every target come
to the same. -/
theorem after_writes_congr (s : Stack φ) {ws others : List (Write φ)}
    (same : ∀ level, others.filter (·.target = level) = ws.filter (·.target = level)) :
    s.after (others.map Write.call) = s.after (ws.map Write.call) := by
  have deep : (s.after (others.map Write.call)).depth = (s.after (ws.map Write.call)).depth := by
    rw [depth_after_writes, depth_after_writes]
  refine ext_get deep (fun level => ?_) ?_
  · rw [get_after_writes, get_after_writes, accepted_eq, accepted_eq, List.filter_comm,
      same level, List.filter_comm]
  · rw [limit_after_writes, limit_after_writes]

/-- **Undoing restores the stack.** -/
theorem after_undo (s : Stack φ) (ws : List (Write φ)) :
    (s.after (ws.map Write.call)).after ((s.undo ws).map Write.call) = s := by
  induction ws generalizing s with
  | nil => rfl
  | cons w rest ih =>
      rw [undo, List.map_append, after_append, List.map_cons, after_cons, ih]
      exact s.call_withFrame w

end Stack

/-- **Writes stay in place.** Take any stack. A `set` at any level above the bottom comes to the
same as to pop as many frames, to swap, and to push again what was popped, the last first. All
those pops bring up a frame, and the swap returns the one that was at the level.

And take any writes one after another, by `set` at any level and by `swap` at level 0. They never
change the depth, they are refused exactly beyond it, and in the end a level reads as what the last
write put there that was not refused, or, if there was none, as before. So writes with different
targets commute: sequences that are the same at every target, but mix the targets in other ways,
leave the same stack and answer alike at each. Refused writes can be left out, which makes no
difference to the others. And the writes are undone from the last to the first by writing at
each target what was there before it. -/
theorem writes_stay_in_place {φ : Type} [Sentinel φ] [DecidableEq φ] (s : Stack φ) :
    (∀ level frame, level < s.depth →
      s.answers (List.replicate level .pop) = (s.unwound level).map .frame ∧
      ((s.after (List.replicate level .pop)).call (.swap frame)).answer = .frame (s.get level) ∧
      (s.call (.set level frame)).answer = .done ∧
      (s.call (.set level frame)).stack = s.after (s.rebuild level frame)) ∧
    ∀ ws : List (Write φ),
      let after := s.after (ws.map Write.call)
      (after.depth = s.depth ∧ after.limit = s.limit) ∧
      s.accepted ws = ws.filter (·.target < s.depth) ∧
      (∀ level, after.get level
        = (((s.accepted ws).filter (·.target = level)).getLast?.map Write.frame).getD
            (s.get level)) ∧
      (∀ others : List (Write φ),
        (∀ level, others.filter (·.target = level) = ws.filter (·.target = level)) →
        s.after (others.map Write.call) = after ∧
        ∀ level, (s.report others).filter (·.1.target = level)
          = (s.report ws).filter (·.1.target = level)) ∧
      (s.after ((s.accepted ws).map Write.call) = after ∧
        s.report (s.accepted ws) = (s.report ws).filter (·.2.fault?.isNone)) ∧
      after.after ((s.undo ws).map Write.call) = s := by
  refine ⟨fun level frame inside => ?_, fun ws => ?_⟩
  · exact ⟨(Stack.answers_unwinding (Nat.le_of_lt inside)).1, Stack.answer_swap_unwound frame inside,
      Stack.answer_set frame inside, (Stack.after_rebuild frame (Nat.le_of_lt inside)).symm⟩
  · refine ⟨⟨s.depth_after_writes ws, s.limit_after_writes ws⟩, s.accepted_eq ws,
      s.get_after_writes ws, fun others same => ⟨s.after_writes_congr same, fun level => ?_⟩,
      s.without_refused ws, s.after_undo ws⟩
    rw [Stack.report_at, Stack.report_at, same level]

/-- The top is written twice and a level past the bottom once. What takes it back is refused there,
too. -/
example :
    let s : Stack Frame := .ofList {} [.numbered 0, .numbered 1]
    let ws : List (Write Frame) :=
      [.set 0 (.numbered 2), .set 7 (.numbered 3), .set 1 (.numbered 4), .swap (.numbered 5)]
    (s.after (ws.map Write.call)).toList = [.numbered 5, .numbered 4] ∧
      s.undo ws = [.swap (.numbered 2), .set 1 (.numbered 1), .set 7 .native,
        .set 0 (.numbered 0)] := by
  decide

end CallPath
