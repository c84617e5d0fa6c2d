import CallPath.Proofs.GuardedRecursion
import CallPath.Proofs.HandleConservation
import Mathlib.Data.List.TakeWhile

/-!
# Where the caller chain ends

A walk up the caller chain reads level after level until native code answers, and below the
bottom it always does. So every walk ends, and all it needs to see every frame is that no frame
on the stack is the sentinel (`Stack.walk_eq`). That is not a matter of course. A read past the
bottom hands the sentinel out like any other frame, and whoever has it can push it.

But somebody has to. A frame that is on a stack after a move was there before or came with the
move (`Machine.mem_step`), and the moves of a session are no different: it may have many
stacks, and copy them and swap them, but every frame on any of them was handed to one of them
at some time (`Session.run_hands_in`). What was handed in is nothing that a state remembers, so
the runs here take notes of it.
-/

namespace CallPath

variable {φ : Type}

/-! ## Walks -/

namespace Stack

variable [Sentinel φ] [DecidableEq φ]

/-- A stack that native code begins below, whichever way one asks for it. -/
structure EndsAtBottom (s : Stack φ) : Prop where
  native : ∀ level, s.isNative (s.get level) = true ↔ s.depth ≤ level
  absent : ∀ level, s.frame? level = none ↔ s.depth ≤ level
  walk : s.walk = s.toList

variable (s : Stack φ)

/-- A walk reads the levels in order, and the first native one ends it. -/
theorem walkFrom_reads (level : Nat) (inside : level ≤ s.depth) :
    ∃ n, level + n ≤ s.depth ∧ s.isNative (s.get (level + n)) = true ∧
      (∀ k < n, s.isNative (s.get (level + k)) = false) ∧
      s.walkFrom level = (List.range' level n).map s.get := by
  induction level using walkFrom.induct s with
  | case1 level native =>
      rw [walkFrom, dif_pos native]
      exact ⟨0, inside, native, fun k hk => absurd hk (Nat.not_lt_zero k), rfl⟩
  | case2 level script further ih =>
      obtain ⟨n, bound, native, scripts, read⟩ := ih further
      rw [walkFrom, dif_neg script, read]
      rw [Nat.add_right_comm] at native
      refine ⟨n + 1, by omega, native, fun k hk => ?_, rfl⟩
      cases k with
      | zero => exact eq_false_of_ne_true script
      | succ k =>
          rw [← Nat.add_assoc, Nat.add_right_comm]
          exact scripts k (Nat.lt_of_succ_lt_succ hk)

omit [DecidableEq φ] in
theorem drop_toList {level : Nat} (inside : level < s.depth) :
    s.toList.drop level = s.get level :: s.toList.drop (level + 1) := by
  rw [← length_toList] at inside
  rw [List.drop_eq_getElem_cons inside, get, frame?_eq, List.getElem?_eq_getElem inside]
  rfl

/-- From any level on, a walk sees the frames above the first native one. -/
theorem walkFrom_eq (level : Nat) :
    s.walkFrom level = (s.toList.drop level).takeWhile (fun frame => !s.isNative frame) := by
  induction level using walkFrom.induct s with
  | case1 level native =>
      rw [walkFrom, dif_pos native]
      -- the sentinel was read either off the stack or from below the bottom
      by_cases inside : level < s.depth
      · rw [s.drop_toList inside, List.takeWhile_cons_of_neg]
        rw [native]
        exact Bool.false_ne_true
      · rw [List.drop_eq_nil_of_le (s.length_toList ▸ Nat.le_of_not_lt inside)]
        rfl
  | case2 level script further ih =>
      rw [walkFrom, dif_neg script, ih, s.drop_toList further, List.takeWhile_cons_of_pos]
      rw [eq_false_of_ne_true script]
      rfl

/-- **A walk sees the frames above the topmost sentinel.** -/
theorem walk_eq : s.walk = s.toList.takeWhile (fun frame => !s.isNative frame) :=
  s.walkFrom_eq 0

theorem isNative_iff {frame : φ} : s.isNative frame = true ↔ frame = Sentinel.native :=
  decide_eq_true_iff

theorem scripts_iff {frames : List φ} :
    (∀ frame ∈ frames, (!s.isNative frame) = true) ↔ Sentinel.native ∉ frames := by
  simp only [Bool.not_eq_true', ← Bool.not_eq_true, s.isNative_iff]
  exact ⟨fun scripts there => scripts _ there rfl, fun scripts _ hf same => scripts (same ▸ hf)⟩

theorem native_notMem_walk : Sentinel.native ∉ s.walk := by
  rw [walk_eq, ← s.scripts_iff]
  intro frame hf
  have script := List.mem_takeWhile_imp hf
  exact script

/-- It sees as many frames from the top as there are before a sentinel comes. -/
theorem prefix_walk {frames : List φ} (top : frames <+: s.toList)
    (scripts : Sentinel.native ∉ frames) : frames <+: s.walk := by
  obtain ⟨below, all⟩ := top
  rw [walk_eq, ← all, List.takeWhile_append_of_pos (s.scripts_iff.mpr scripts)]
  exact List.prefix_append frames _

theorem walk_eq_toList : s.walk = s.toList ↔ Sentinel.native ∉ s.toList := by
  rw [walk_eq, List.takeWhile_eq_self_iff, scripts_iff]

/-- Native code begins below the bottom exactly if the sentinel is not on the stack. -/
theorem endsAtBottom_iff : s.EndsAtBottom ↔ Sentinel.native ∉ s.toList := by
  refine ⟨fun h => s.walk_eq_toList.mp h.walk, fun scripts => ⟨fun level => ?_, fun level => ?_,
    s.walk_eq_toList.mpr scripts⟩⟩
  · rw [isNative_iff]
    refine ⟨fun native => Nat.le_of_not_lt (fun inside => scripts ?_), fun outside => ?_⟩
    · rw [← native]
      refine List.mem_of_mem_drop (i := level) ?_
      rw [s.drop_toList inside]
      exact List.mem_cons_self
    · rw [get, frame?_eq_none.mpr outside]
      rfl
  · exact frame?_eq_none

end Stack

/-! ## One stack -/

section

variable [Sentinel φ] [DecidableEq φ] {frame : φ}

/-- A call puts nothing on the stack but what it is given. -/
theorem Stack.mem_call {s : Stack φ} {c : Call φ} (there : frame ∈ (s.call c).stack.toList) :
    frame ∈ s.toList ∨ frame ∈ c.given := by
  cases c with
  | push new =>
      rw [show (s.call (.push new)).stack = s.push new from rfl, toList_push] at there
      exact (List.mem_cons.mp there).symm.imp_right List.mem_singleton.mpr
  | pop =>
      rw [toList_call_pop] at there
      exact .inl (List.mem_of_mem_tail there)
  | swap new =>
      rw [toList_call_swap] at there
      exact (List.mem_or_eq_of_mem_set there).imp_right List.mem_singleton.mpr
  | set level new =>
      rw [toList_call_set] at there
      exact (List.mem_or_eq_of_mem_set there).imp_right List.mem_singleton.mpr
  | clear => exact absurd there List.not_mem_nil
  | replace next => exact .inr there
  | _ => exact .inl there

omit [DecidableEq φ] in
/-- A call that hands over a whole stack hands over the one it was made on. -/
theorem Stack.eq_of_answer [DecidableEq φ] {s t : Stack φ} {c : Call φ}
    (handed : (s.call c).answer = .stack t) : t = s := by
  cases c with
  | pop => cases hs : s.pop? <;> simp [call, hs] at handed
  | swap new => cases hs : s.swap? new <;> simp [call, hs] at handed
  | set level new => cases hs : s.set? level new <;> simp [call, hs] at handed
  | copy | replace next =>
      cases handed
      rfl
  | _ => cases handed

theorem Machine.mem_leave {m : Machine φ} (there : frame ∈ m.leave.machine.stack.toList) :
    frame ∈ m.stack.toList := by
  cases hg : m.guards with
  | nil => rwa [leave_of_nil hg] at there
  | cons guard rest =>
      rw [stack_leave hg, toList_release] at there
      exact List.mem_of_mem_drop there

omit [Sentinel φ] [DecidableEq φ] in
theorem Machine.mem_forget {m : Machine φ} (there : frame ∈ m.forget.machine.stack.toList) :
    frame ∈ m.stack.toList := by
  obtain ⟨stack, guards, forgotten⟩ := m
  cases guards <;> exact there

theorem Machine.mem_enter {m : Machine φ} {manner : Manner} {new : φ}
    (there : frame ∈ (m.enter manner new).machine.stack.toList) :
    frame ∈ m.stack.toList ∨ frame = new := by
  rcases m.enter_cases manner new with ⟨-, same⟩ | ⟨-, entered⟩
  · rw [same] at there
    exact .inl there
  · rw [entered, Stack.toList_push] at there
    exact (List.mem_cons.mp there).symm

/-- **A move puts nothing on the stack but what it is given.** -/
theorem Machine.mem_step {m : Machine φ} {mv : Move φ}
    (there : frame ∈ (m.step mv).machine.stack.toList) :
    frame ∈ m.stack.toList ∨ frame ∈ mv.given := by
  cases mv with
  | call c => exact Stack.mem_call there
  | enter manner new => exact (mem_enter there).imp_right List.mem_singleton.mpr
  | leave => exact .inl (mem_leave there)
  | forget => exact .inl (mem_forget there)

/-- Whatever is on the stack was there in the beginning or was handed in since. -/
theorem Happened.mem_stack {start : Machine φ} {past : List (Record φ)}
    (h : Happened start past) (there : frame ∈ (now start past).stack.toList) :
    frame ∈ start.stack.toList ∨ ∃ record ∈ past, frame ∈ record.move.given := by
  induction h with
  | nil => exact .inl there
  | @move past mv _ ih =>
      rcases Machine.mem_step there with before | given
      · exact (ih before).imp_right (fun ⟨record, hr, given⟩ =>
          ⟨record, List.mem_cons_of_mem _ hr, given⟩)
      · exact .inr ⟨_, List.mem_cons_self, given⟩

end

/-! ## Many stacks -/

namespace Session

variable {s t u : Session} {P Q : Frame → Prop} {frame : Frame}

/-- The stacks of a session: the current one, those of the machines that wait, and those that
have a name. -/
def allStacks (s : Session) : List (Stack Frame) :=
  s.machine.stack :: (s.suspended.map Machine.stack ++ s.named.values)

/-- Every frame on every stack is one of a kind. -/
structure StacksHold (P : Frame → Prop) (s : Session) : Prop where
  current : ∀ frame ∈ s.machine.stack.toList, P frame
  waiting : ∀ m ∈ s.suspended, ∀ frame ∈ m.stack.toList, P frame
  named : ∀ stack ∈ s.named.values, ∀ frame ∈ stack.toList, P frame

theorem stacksHold_iff :
    s.StacksHold P ↔ ∀ stack ∈ s.allStacks, ∀ frame ∈ stack.toList, P frame := by
  simp only [allStacks, List.forall_mem_cons, List.forall_mem_append, List.forall_mem_map]
  exact ⟨fun h => ⟨h.current, h.waiting, h.named⟩, fun h => ⟨h.1, h.2.1, h.2.2⟩⟩

/-- The frame that an expression names, if it names one. -/
def frameOf (s : Session) (expr : FrameExpr) : List Frame :=
  ((s.eval? expr).map Prod.fst).toList

/-- The frames that a session creates next. -/
def upcoming (s : Session) (n : Nat) : List Frame :=
  (List.range' s.registry.scopes.size n).map Frame.numbered

/-- The frames that a command hands to a stack. -/
def handsIn (s : Session) : Command → List Frame
  | .push expr _ | .swap expr _ | .set _ expr | .make _ (.seeded expr) => s.frameOf expr
  | .pushMany (some _) n => s.upcoming n
  | .recurse _ n =>
      let first := s.registry.scopes.size
      s.upcoming (s.machine.descend (fun i => .numbered (first + i)) 0 n).frames
  | _ => []

/-- The frames that are handed to a stack where a body is opened. -/
def entersWith (s : Session) : Section → List Frame
  | .enter expr _ _ | .enterHidden expr _ => s.frameOf expr
  | .attempt | .within _ => []

namespace StacksHold

theorem mono (h : s.StacksHold P) (weaker : ∀ frame, P frame → Q frame) : s.StacksHold Q :=
  ⟨fun f hf => weaker f (h.current f hf), fun m hm f hf => weaker f (h.waiting m hm f hf),
    fun stack hs f hf => weaker f (h.named stack hs f hf)⟩

/-- What comes to the current stack alone. -/
theorem moved (h : s.StacksHold P) {transition : Transition Frame}
    (holds : ∀ frame ∈ transition.machine.stack.toList, P frame) :
    (s.moved transition).StacksHold P :=
  ⟨holds, h.waiting, h.named⟩

theorem call (h : s.StacksHold P) (c : Call Frame) (given : ∀ frame ∈ c.given, P frame) :
    (s.call c).2.StacksHold P :=
  h.moved (fun f hf => (Stack.mem_call hf).elim (h.current f) (given f))

theorem store (h : s.StacksHold P) {stack : Stack Frame} (holds : ∀ frame ∈ stack.toList, P frame)
    (name : String) : (s.store name stack).StacksHold P := by
  refine ⟨h.current, h.waiting, fun other there => ?_⟩
  rcases List.mem_cons.mp there with rfl | older
  · exact holds
  · obtain ⟨entry, kept, same⟩ := List.mem_map.mp older
    exact h.named other (same ▸ List.mem_map_of_mem (List.mem_filter.mp kept).1)

theorem erase (h : s.StacksHold P) (name : String) :
    StacksHold P { s with named := s.named.erase name } := by
  refine ⟨h.current, h.waiting, fun other there => ?_⟩
  obtain ⟨entry, kept, same⟩ := List.mem_map.mp there
  exact h.named other (same ▸ List.mem_map_of_mem (List.mem_filter.mp kept).1)

theorem eval? (h : s.StacksHold P) {expr : FrameExpr} (evaluated : s.eval? expr = some (frame, t)) :
    t.StacksHold P := by
  cases expr with
  | held name =>
      obtain ⟨f, -, same⟩ := Option.map_eq_some_iff.mp evaluated
      cases same
      exact ⟨h.current, h.waiting, h.named⟩
  | pushed =>
      obtain ⟨guard, -, same⟩ := Option.map_eq_some_iff.mp evaluated
      cases same
      exact ⟨h.current, h.waiting, h.named⟩
  | fresh name mute | level level | native =>
      cases evaluated
      exact ⟨h.current, h.waiting, h.named⟩

theorem conclude (h : s.StacksHold P) {answer : Answer Frame} (save : Option String)
    (holds : ∀ stack, answer = .stack stack → ∀ frame ∈ stack.toList, P frame) :
    (s.conclude save answer).2.StacksHold P := by
  cases answer with
  | stack stack =>
      cases save with
      | none => exact ⟨h.current, h.waiting, h.named⟩
      | some name => exact h.store (holds stack rfl) name
  | frame frame => cases save <;> exact ⟨h.current, h.waiting, h.named⟩
  | frames frames => cases save <;> exact ⟨h.current, h.waiting, h.named⟩
  | _ => exact h

theorem ask (h : s.StacksHold P) (c : Call Frame) (save : Option String)
    (given : ∀ frame ∈ c.given, P frame) : (s.ask c save).2.StacksHold P := by
  refine (h.call c given).conclude save (fun stack handed => ?_)
  have same : stack = s.machine.stack := Stack.eq_of_answer handed
  rw [same]
  exact h.current

theorem holdClone (h : s.StacksHold P) (save : Option String) (frame : Frame) :
    (s.holdClone save frame).StacksHold P := by
  cases save <;> exact ⟨h.current, h.waiting, h.named⟩

theorem pushFresh (name : String) (n : Nat) : ∀ (i : Nat) {s : Session}, s.StacksHold P →
    (∀ frame ∈ s.upcoming n, P frame) → (s.pushFresh name i n).StacksHold P := by
  induction n with
  | zero => exact fun _ _ h _ => h
  | succ n ih =>
      intro i s h made
      have first : P (s.create (name ++ toString i)).1 := made _ List.mem_cons_self
      have created : (s.create (name ++ toString i)).2.StacksHold P :=
        ⟨h.current, h.waiting, h.named⟩
      have pushed := created.call (.push (s.create (name ++ toString i)).1)
        (List.forall_mem_singleton.mpr first)
      refine ih (i + 1) pushed (fun frame later => made frame ?_)
      have size : (s.registry.scopes.push { name := name ++ toString i }).size
          = s.registry.scopes.size + 1 := Array.size_push _
      have rest : frame ∈ (List.range' (s.registry.scopes.push _).size n).map Frame.numbered :=
        later
      rw [size] at rest
      exact List.mem_cons_of_mem _ rest

theorem popUpTo (n : Nat) : ∀ {s : Session}, s.StacksHold P →
    (s.popUpTo n).2.2.StacksHold P := by
  induction n with
  | zero => exact fun h => h
  | succ n ih =>
      intro s h
      have popped := h.call .pop nofun
      rw [Session.popUpTo]
      generalize s.call .pop = reply at popped
      obtain ⟨answer, u⟩ := reply
      cases answer with
      | frame frame => exact ih ⟨popped.current, popped.waiting, popped.named⟩
      | _ => exact popped

theorem createForCalls (name : String) (count : Nat) : ∀ (n : Nat) {s : Session},
    s.StacksHold P → (s.createForCalls name n count).StacksHold P := by
  induction count with
  | zero => exact fun _ _ h => h
  | succ count ih =>
      intro n s h
      exact ih (n - 1) ⟨h.current, h.waiting, h.named⟩

/-- A recursion leaves the machine as it was, so it does not matter what it entered. -/
theorem recurse (h : s.StacksHold P) (name : String) (n : Nat) :
    (s.recurse name n).2.StacksHold P := by
  let first := s.registry.scopes.size
  let descent := s.machine.descend (fun i => .numbered (first + i)) 0 n
  have made : (s.createForCalls name n descent.frames).StacksHold P :=
    createForCalls name descent.frames n h
  have back : ∀ f ∈ descent.machine.stack.toList, P f := by
    rw [show descent.machine = s.machine from s.machine.machine_descend _ 0 n]
    exact h.current
  show ((s.createForCalls name n descent.frames).moved
    { machine := descent.machine, effect := descent.effect }).StacksHold P
  exact made.moved back

theorem mem_frameOf {expr : FrameExpr} (evaluated : s.eval? expr = some (frame, t)) :
    frame ∈ s.frameOf expr := by
  rw [frameOf, evaluated]
  exact List.mem_cons_self

/-- What a command does with a frame that an expression names. -/
theorem with_frame {expr : FrameExpr} {k : Frame × Session → Result × Session}
    {x : Result × Session} (h : s.StacksHold P) (performed : (s.eval? expr).map k = some x)
    (holds : ∀ frame u, frame ∈ s.frameOf expr → u.StacksHold P → (k (frame, u)).2.StacksHold P) :
    x.2.StacksHold P := by
  obtain ⟨⟨frame, u⟩, evaluated, same⟩ := Option.map_eq_some_iff.mp performed
  rw [← same]
  exact holds frame u (mem_frameOf evaluated) (h.eval? evaluated)

theorem perform? (h : s.StacksHold P) {c : Command} {x : Result × Session}
    (given : ∀ frame ∈ s.handsIn c, P frame) (performed : s.perform? c = some x) :
    x.2.StacksHold P := by
  -- a frame that comes from an expression is one of those handed in; everything else that
  -- stacks receive they receive as whole stacks, which hold the right frames already
  cases c with
  | push expr save =>
      refine h.with_frame performed (fun frame u hf hu => ?_)
      exact (hu.holdClone save frame).ask _ none (List.forall_mem_singleton.mpr (given frame hf))
  | swap expr save =>
      refine h.with_frame performed (fun frame u hf hu => ?_)
      exact hu.ask _ save (List.forall_mem_singleton.mpr (given frame hf))
  | set level expr =>
      refine h.with_frame performed (fun frame u hf hu => ?_)
      exact hu.ask _ none (List.forall_mem_singleton.mpr (given frame hf))
  | isNative expr =>
      refine h.with_frame performed (fun frame u _ hu => ?_)
      have asked := hu.ask (.isNative frame) none nofun
      exact ⟨asked.current, asked.waiting, asked.named⟩
  | bind name expr | define expr ident value | resolve expr ident =>
      exact h.with_frame performed (fun frame u _ hu => ⟨hu.current, hu.waiting, hu.named⟩)
  | malformed name expr =>
      obtain ⟨⟨frame, u⟩, evaluated, same⟩ := Option.map_eq_some_iff.mp performed
      obtain ⟨expr, -, evaluated⟩ := Option.bind_eq_some_iff.mp evaluated
      cases same
      have hu := h.eval? evaluated
      exact ⟨hu.current, hu.waiting, hu.named⟩
  | pop save | get level save | top save | list save =>
      cases performed
      exact h.ask _ save nofun
  | take save =>
      cases performed
      exact h.ask _ save nofun
  | frame level | depth | clear | iterate source calls | limit =>
      cases performed
      exact h.ask _ none nofun
  | copy name | clone name =>
      cases performed
      exact h.ask _ (some name) nofun
  | pushMany name n =>
      simp only [Session.perform?] at performed
      split at performed
      · cases performed
        exact h
      · obtain ⟨name, rfl, same⟩ := Option.map_eq_some_iff.mp performed
        cases same
        exact pushFresh name n 0 h given
  | popMany n =>
      cases performed
      exact popUpTo n h
  | recurse name n =>
      cases performed
      exact h.recurse name n
  | assign source =>
      obtain ⟨stack, found, same⟩ := Option.map_eq_some_iff.mp performed
      cases same
      have retained : (s.retain stack.toList).StacksHold P := ⟨h.current, h.waiting, h.named⟩
      exact retained.ask (.replace stack) none (h.named stack (Table.mem_values_of_find? found))
  | make name expr =>
      cases expr with
      | empty limit =>
          cases performed
          exact h.store (fun _ there => absurd there List.not_mem_nil) name
      | seeded expr =>
          obtain ⟨⟨stack, u⟩, built, same⟩ := Option.map_eq_some_iff.mp performed
          cases same
          obtain ⟨⟨frame, v⟩, evaluated, same⟩ := Option.map_eq_some_iff.mp built
          cases same
          have hv := h.eval? evaluated
          have made : StacksHold P (v.absorb (Stack.empty.call (.push frame)).effect) :=
            ⟨hv.current, hv.waiting, hv.named⟩
          have holds : ∀ f ∈ ((Stack.empty : Stack Frame).push frame).toList, P f :=
            List.forall_mem_singleton.mpr (given frame (mem_frameOf evaluated))
          exact made.store holds name
  | dropStack name =>
      obtain ⟨stack, -, same⟩ := Option.map_eq_some_iff.mp performed
      cases same
      have erased := h.erase name
      exact ⟨erased.current, erased.waiting, erased.named⟩
  | saved name | dropSaved name | unbind name =>
      obtain ⟨_, -, same⟩ := Option.map_eq_some_iff.mp performed
      cases same
      exact ⟨h.current, h.waiting, h.named⟩
  | count id =>
      obtain ⟨frame, -, asked⟩ := Option.bind_eq_some_iff.mp performed
      split at asked
      · cases asked
        exact h
      · cases asked
  | lookup level ident =>
      simp only [Session.perform?] at performed
      split at performed
      · cases performed
        exact h
      · obtain ⟨ident, -, same⟩ := Option.map_eq_some_iff.mp performed
        cases same
        exact h
  | render | fail message | panic message => cases performed
  | _ =>
      cases performed
      exact h

theorem act (h : s.StacksHold P) {c : Command} (given : ∀ frame ∈ s.handsIn c, P frame) :
    (s.act c).1.StacksHold P := by
  unfold Session.act
  split
  · split <;> exact ⟨h.current, h.waiting, h.named⟩
  · split <;> exact ⟨h.current, h.waiting, h.named⟩
  · exact ⟨h.current, h.waiting, h.named⟩
  · cases performed : s.perform? c with
    | none => exact ⟨h.current, h.waiting, h.named⟩
    | some x =>
        have hx := h.perform? given performed
        exact ⟨hx.current, hx.waiting, hx.named⟩

/-! ### Bodies -/

theorem enterFrame (h : s.StacksHold P) (name : String) (manner : Manner) {expr : FrameExpr}
    (insist : Bool) (given : ∀ frame ∈ s.frameOf expr, P frame) :
    (s.enterFrame name manner expr insist).state.StacksHold P := by
  unfold Session.enterFrame
  cases evaluated : s.eval? expr with
  | none => exact ⟨h.current, h.waiting, h.named⟩
  | some x =>
      obtain ⟨frame, u⟩ := x
      have hu := h.eval? evaluated
      have entered : (u.moved (u.machine.enter manner frame)).StacksHold P :=
        hu.moved (fun f hf => (Machine.mem_enter hf).elim (hu.current f)
          (fun same => same ▸ given frame (mem_frameOf evaluated)))
      dsimp only
      split <;> exact ⟨entered.current, entered.waiting, entered.named⟩

theorem openBody (h : s.StacksHold P) {header : Section}
    (given : ∀ frame ∈ s.entersWith header, P frame) :
    (openBody header s).state.StacksHold P := by
  cases header with
  | enter expr insist forget => exact h.enterFrame _ _ insist given
  | enterHidden expr insist => exact h.enterFrame _ _ insist given
  | attempt => exact h
  | within name =>
      cases found : s.named.find? name with
      | none =>
          rw [openBody_within_none found]
          exact ⟨h.current, h.waiting, h.named⟩
      | some stack =>
          rw [openBody_within_some found]
          exact ⟨h.named stack (Table.mem_values_of_find? found),
            List.forall_mem_cons.mpr ⟨h.current, h.waiting⟩, (h.erase name).named⟩

theorem leaveFrame (h : s.StacksHold P) (forget : Bool) (o : Outcome) :
    (s.leaveFrame forget o).1.StacksHold P := by
  have left : (s.moved (if forget then s.machine.forget else s.machine.leave)).StacksHold P := by
    refine h.moved (fun f hf => h.current f ?_)
    cases forget with
    | true => exact Machine.mem_forget hf
    | false => exact Machine.mem_leave hf
  exact ⟨left.current, left.waiting, left.named⟩

theorem resume (h : s.StacksHold P) (name : String) : (s.resume name).StacksHold P := by
  unfold Session.resume
  cases hw : s.suspended with
  | nil => exact h
  | cons outer rest =>
      have waiting := h.waiting
      rw [hw] at waiting
      obtain ⟨first, others⟩ := List.forall_mem_cons.mp waiting
      have back : StacksHold P
          { s with
            machine := { outer with forgotten := s.machine.forgotten ++ outer.forgotten }
            suspended := rest } := ⟨first, others, h.named⟩
      exact back.store h.current name

theorem closeBody (h : s.StacksHold P) (header : Section) (o : Outcome) :
    (closeBody header o s).1.StacksHold P := by
  cases header with
  | enter expr insist forget => exact h.leaveFrame _ o
  | enterHidden expr insist => exact h.leaveFrame _ o
  | attempt => exact ⟨h.current, h.waiting, h.named⟩
  | within name =>
      have back := h.resume name
      exact ⟨back.current, back.waiting, back.named⟩

end StacksHold

end Session

/-! ## Runs that are taken notes of -/

section

variable {α β γ σ : Type}

/-- The same host, on states with a list beside them. An act or an opening adds to the list what
it is noted for. -/
def Host.noting (h : Host α β σ) (acting : α → σ → List γ) (opening : β → σ → List γ) :
    Host α β (σ × List γ) where
  act a t := (((h.act a t.1).1, acting a t.1 ++ t.2), (h.act a t.1).2)
  enter b t :=
    match h.enter b t.1 with
    | .opened s => .opened (s, opening b t.1 ++ t.2)
    | .skipped s o => .skipped (s, opening b t.1 ++ t.2) o
  leave b o t := (((h.leave b o t.1).1, t.2), (h.leave b o t.1).2)

theorem Host.state_noting (h : Host α β σ) (acting : α → σ → List γ) (opening : β → σ → List γ)
    (b : β) (t : σ × List γ) :
    ((h.noting acting opening).enter b t).state
      = ((h.enter b t.1).state, opening b t.1 ++ t.2) := by
  unfold noting
  dsimp only
  cases h.enter b t.1 <;> rfl

/-- Notes make no difference to a run: it passes the states that it would pass without them. -/
theorem run_noting (h : Host α β σ) (acting : α → σ → List γ) (opening : β → σ → List γ)
    (p : Program α β) (s : σ) (notes : List γ) :
    let noted := p.run (h.noting acting opening).trailing { state := (s, notes) }
    let plain := p.run h.trailing { state := s }
    noted.1.states.map Prod.fst = plain.1.states ∧ noted.2 = plain.2 := by
  let alike (t : Trail (σ × List γ)) (u : Trail σ) : Prop := t.states.map Prod.fst = u.states
  -- the whole trails correspond, so it is enough to look at the first state of each
  refine run_alike (R := alike) p ?_ ?_ ?_ _ _ rfl
  · rintro a - ⟨⟨s, notes⟩, passed⟩ ⟨u, before⟩ same
    obtain ⟨rfl, rfl⟩ := List.cons.inj same
    exact ⟨rfl, rfl⟩
  · rintro b - ⟨⟨s, notes⟩, passed⟩ ⟨u, before⟩ same
    obtain ⟨rfl, rfl⟩ := List.cons.inj same
    cases ho : h.enter b s with
    | opened v =>
        simp only [Host.trailing, Host.noting, ho]
        exact .opened rfl
    | skipped v o =>
        simp only [Host.trailing, Host.noting, ho]
        exact .skipped rfl
  · rintro b - o ⟨⟨s, notes⟩, passed⟩ ⟨u, before⟩ same
    obtain ⟨rfl, rfl⟩ := List.cons.inj same
    exact ⟨rfl, rfl⟩

end

namespace Session

/-- The host of a session, which takes note of the frames that are handed to a stack. -/
def notingHost : Host Command Section (Session × List Frame) :=
  host.noting (fun c s => s.handsIn c) (fun header s => s.entersWith header)

/-- **Every frame on every stack was handed in,** at every point of a run, if those are noted
that were there in the beginning. -/
theorem run_hands_in (p : Script) {s : Session} {notes : List Frame}
    (h : s.StacksHold (· ∈ notes)) :
    ∀ t ∈ (p.run notingHost.trailing { state := (s, notes) }).1.states,
      t.1.StacksHold (· ∈ t.2) := by
  have noted : ∀ {t : Session × List Frame} (more : List Frame), t.1.StacksHold (· ∈ t.2) →
      t.1.StacksHold (· ∈ more ++ t.2) :=
    fun more ht => ht.mono (fun f hf => List.mem_append_right more hf)
  refine trail_keeps (h := notingHost) (P := fun t => t.1.StacksHold (· ∈ t.2)) p ?_ ?_ ?_
    (s, notes) h
  · exact fun c _ t ht => (noted _ ht).act (fun f hf => List.mem_append_left _ hf)
  · intro header _ t ht
    rw [notingHost, Host.state_noting]
    exact (noted _ ht).openBody (fun f hf => List.mem_append_left _ hf)
  · exact fun header _ o t ht => ht.closeBody header o

theorem stacksHold_self (s : Session) : s.StacksHold (· ∈ s.allStacks.flatMap Stack.toList) :=
  stacksHold_iff.mpr (fun stack hs _ hf => List.mem_flatMap.mpr ⟨stack, hs, hf⟩)

end Session

/-- **A walk ends at native code, and native code begins below the bottom.** A walk up the
caller chain ends with the first level that is native, which is a level of the stack or the one
below it. It has seen the longest run of frames from the top without the sentinel, so it has
seen all frames exactly if the sentinel is not on the stack. And there it cannot come by itself.
Take any run on one stack, or any run of a session with as many stacks as it likes, and any
point of it where the sentinel is not among the frames that were there in the beginning or were
handed in by then: a level of any stack is native exactly if it is below the bottom, no frame is
found there, and walks see all frames, no matter what the frames are named. -/
theorem walks_end_at_native [Sentinel φ] [DecidableEq φ] (stack : Stack φ) (m : Machine φ)
    (q : Program (Act φ) (Block φ)) (s : Session) (p : Script) :
    (∃ last ≤ stack.depth, stack.isNative (stack.get last) = true ∧
      (∀ level < last, stack.isNative (stack.get level) = false) ∧
      stack.walk = (List.range last).map stack.get) ∧
    (stack.walk <+: stack.toList ∧ Sentinel.native ∉ stack.walk ∧
      ∀ frames, frames <+: stack.toList → Sentinel.native ∉ frames → frames <+: stack.walk) ∧
    (stack.walk = stack.toList ↔ Sentinel.native ∉ stack.toList) ∧
    (∀ past, past <:+ (m.run q).1.history → Sentinel.native ∉ m.stack.toList →
      (∀ record ∈ past, Sentinel.native ∉ record.move.given) →
      (now m past).stack.EndsAtBottom) ∧
    let plain := p.run Session.host.trailing { state := s }
    let noted := p.run Session.notingHost.trailing
      { state := (s, s.allStacks.flatMap Stack.toList) }
    noted.1.states.map Prod.fst = plain.1.states ∧ noted.2 = plain.2 ∧
      ∀ t ∈ noted.1.states, Sentinel.native ∉ t.2 →
        ∀ stack ∈ t.1.allStacks, stack.EndsAtBottom := by
  refine ⟨?_, ⟨?_, stack.native_notMem_walk, fun frames => stack.prefix_walk⟩,
    stack.walk_eq_toList, ?_, ?_⟩
  · obtain ⟨last, bound, native, scripts, read⟩ := stack.walkFrom_reads 0 (Nat.zero_le _)
    rw [Nat.zero_add] at bound native
    refine ⟨last, bound, native, fun level above => ?_, ?_⟩
    · rw [← Nat.zero_add level]
      exact scripts level above
    · rw [Stack.walk, read, List.range_eq_range']
  · rw [stack.walk_eq]
    exact List.takeWhile_prefix _
  · intro past hs scripts given
    refine (Stack.endsAtBottom_iff _).mpr (fun there => ?_)
    have happened := (run_keeps_history m q).happened.of_suffix hs
    rcases happened.mem_stack there with before | ⟨record, hr, handed⟩
    · exact scripts before
    · exact given record hr handed
  · obtain ⟨states, outcome⟩ := run_noting Session.host (fun c s => s.handsIn c)
      (fun header s => s.entersWith header) p s (s.allStacks.flatMap Stack.toList)
    refine ⟨states, outcome, fun t ht unseen stack hs => ?_⟩
    have handed := Session.stacksHold_iff.mp (Session.run_hands_in p s.stacksHold_self t ht)
    exact (Stack.endsAtBottom_iff stack).mpr (fun there => unseen (handed stack hs _ there))

/-- A sentinel on the stack cuts the walk short. -/
example :
    let s : Stack Frame := .ofList {} [.numbered 1, .native, .numbered 0]
    s.walk = [.numbered 1] ∧ s.depth = 3 := by
  cbv

end CallPath
