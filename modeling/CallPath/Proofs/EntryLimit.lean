import CallPath.Proofs.Unwinding
import CallPath.Session.Frame

/-!
# What the limit on entry does

The limit is asked about in one place, when a frame is to be entered, and only about the depth
at that moment. So it says nothing of plain pushes, nor of frames that were left over or whose
guards were forgotten, except that all of these count when the next frame is to be entered.

So the depth can rise above the limit, or above where it began, by plain pushes alone, and by
one frame for each of them (`depth_bounded`). The bound is kept step by step. An entry that is
let in ends at the limit at most, whatever is on the stack by then, and a guard that is left
only ever makes the stack shallower.
-/

namespace CallPath

variable {φ : Type}

/-- Whether a move enters a frame, or tries to. -/
def Move.isEntry : Move φ → Bool
  | .enter _ _ => true
  | .call _ | .leave | .forget => false

/-- Whether a move pushes a frame without asking the limit. -/
def Move.isPush : Move φ → Bool
  | .call (.push _) => true
  | _ => false

/-- How many plain pushes there were. -/
def pushes (past : List (Record φ)) : Nat := past.countP (fun record => record.move.isPush)

variable [Sentinel φ] [DecidableEq φ]

/-! ## The limit stays what it is -/

theorem Machine.limit_step {m : Machine φ} {mv : Move φ}
    (whole : ∀ next, mv ≠ .call (.replace next)) :
    (m.step mv).machine.stack.limit = m.stack.limit := by
  cases mv with
  | call c => exact Stack.limit_call (fun next hc => whole next (congrArg Move.call hc))
  | enter manner frame =>
      show (m.enter manner frame).machine.stack.limit = _
      rcases m.enter_cases manner frame with ⟨-, hm⟩ | ⟨-, hm⟩ <;> rw [hm]
      rfl
  | leave =>
      show m.leave.machine.stack.limit = _
      cases hg : m.guards with
      | nil => rw [Machine.leave_of_nil hg]
      | cons guard rest =>
          rw [Machine.leave_of_cons hg]
          exact Machine.limit_release m.stack guard
  | forget =>
      obtain ⟨stack, guards, forgotten⟩ := m
      cases guards <;> rfl

theorem Happened.limit_eq {start : Machine φ} {past : List (Record φ)} (h : Happened start past)
    (whole : ∀ record ∈ past, ∀ next, record.move ≠ .call (.replace next)) :
    (now start past).stack.limit = start.stack.limit := by
  induction h with
  | nil => rfl
  | @move past mv _ ih =>
      have before := ih (fun record hr => whole record (List.mem_cons_of_mem _ hr))
      have step := Machine.limit_step (m := now start past) (whole _ List.mem_cons_self)
      exact step.trans before

/-! ## How deep it can get -/

theorem Stack.depth_call_le {s : Stack φ} {c : Call φ} (whole : ∀ next, c ≠ .replace next) :
    (s.call c).stack.depth ≤ s.depth + if (Move.call c).isPush then 1 else 0 := by
  cases c with
  | push frame => exact (depth_push s frame).le
  | pop =>
      rw [depth_call_pop]
      exact Nat.le_trans (Nat.sub_le _ _) (Nat.le_add_right _ _)
  | swap frame =>
      rw [depth_call_swap]
      exact Nat.le_add_right _ _
  | set level frame =>
      rw [depth_call_set]
      exact Nat.le_add_right _ _
  | clear => exact Nat.zero_le _
  | replace next => exact absurd rfl (whole next)
  | _ => exact Nat.le_add_right _ _

/-- A move makes the stack deeper than it was only by a push, or up to the limit. -/
theorem Machine.depth_step_le {m : Machine φ} {mv : Move φ}
    (whole : ∀ next, mv ≠ .call (.replace next)) {cap : Nat}
    (limited : m.stack.limit.max = some cap) :
    (m.step mv).machine.stack.depth ≤ max cap m.stack.depth + if mv.isPush then 1 else 0 := by
  have same : m.stack.depth ≤ max cap m.stack.depth := Nat.le_max_right _ _
  cases mv with
  | call c =>
      have called : (m.stack.call c).stack.depth
          ≤ m.stack.depth + if (Move.call c).isPush then 1 else 0 :=
        Stack.depth_call_le (fun next hc => whole next (congrArg Move.call hc))
      exact Nat.le_trans called (Nat.add_le_add_right same _)
  | enter manner frame =>
      show (m.enter manner frame).machine.stack.depth ≤ _ + 0
      cases hr : m.stack.limit.refusal? m.stack.depth with
      | some limit =>
          rw [Machine.enter_refused hr]
          exact same
      | none =>
          have free := Limit.refusal?_eq_none.mp hr cap limited
          rw [Machine.enter_accepted hr]
          show (m.stack.push frame).depth ≤ _
          rw [Stack.depth_push]
          omega
  | leave =>
      show m.leave.machine.stack.depth ≤ _ + 0
      cases hg : m.guards with
      | nil =>
          rw [Machine.leave_of_nil hg]
          exact same
      | cons guard rest =>
          rw [Machine.stack_leave hg, Machine.depth_release]
          omega
  | forget =>
      obtain ⟨stack, guards, forgotten⟩ := m
      cases guards <;> exact same

/-- **Only plain pushes go beyond the limit,** each by one frame at most. -/
theorem Happened.depth_le {start : Machine φ} {past : List (Record φ)} (h : Happened start past)
    (whole : ∀ record ∈ past, ∀ next, record.move ≠ .call (.replace next)) {cap : Nat}
    (limited : start.stack.limit.max = some cap) :
    (now start past).stack.depth ≤ max cap start.stack.depth + pushes past := by
  induction h with
  | nil => exact Nat.le_max_right _ _
  | @move past mv h ih =>
      have earlier : ∀ record ∈ past, ∀ next, record.move ≠ .call (.replace next) :=
        fun record hr => whole record (List.mem_cons_of_mem _ hr)
      have still : (now start past).stack.limit.max = some cap := by
        rw [h.limit_eq earlier, limited]
      have step : (now start ((now start past).record mv :: past)).stack.depth
          ≤ max cap (now start past).stack.depth + if mv.isPush then 1 else 0 :=
        Machine.depth_step_le (whole _ List.mem_cons_self) still
      have counted : pushes ((now start past).record mv :: past)
          = pushes past + if mv.isPush then 1 else 0 := List.countP_cons ..
      have before := ih earlier
      omega

/-- An entry opens its body exactly if it is not refused. -/
theorem Recording.opened_iff {r : Recording φ} {b : Block φ} (entry : b ≠ .attempt) :
    (∃ t, Recording.host.enter b r = .opened t) ↔
      r.machine.stack.limit.refusal? r.machine.stack.depth = none := by
  have each : ∀ manner frame insist, (∃ t, r.enter manner frame insist = .opened t) ↔
      r.machine.stack.limit.refusal? r.machine.stack.depth = none := by
    intro manner frame insist
    unfold Recording.enter
    rw [Machine.fault?_enter]
    cases r.machine.stack.limit.refusal? r.machine.stack.depth <;> simp
  cases b with
  | enter frame insist forget => exact each .reachable frame insist
  | enterHidden frame insist => exact each .hidden frame insist
  | attempt => exact absurd rfl entry

/-- **The depth is bounded.** Take a stack under a limit of `cap`, and any program that never
replaces the stack as a whole. At every point of its run the stack is no deeper than the
limit, or than it was in the beginning, by more than the number of plain pushes so far; with
no push it is no deeper at all. The limit is what it was. Every entry is let in exactly if
the depth is below `cap` at that moment, and so the body of every entry that the run comes
to is run exactly then. -/
theorem depth_bounded (s : Stack φ) (cap : Nat) (limited : s.limit.max = some cap)
    (p : Program (Act φ) (Block φ)) (whole : ∀ next, .call (.replace next) ∉ p.moves) :
    let start : Machine φ := { stack := s }
    (∀ past, past <:+ (start.run p).1.history →
      (now start past).stack.depth ≤ max cap s.depth + pushes past ∧
      (pushes past = 0 → (now start past).stack.depth ≤ max cap s.depth) ∧
      (now start past).stack.limit = s.limit) ∧
    (∀ entry ∈ (start.run p).1.history, entry.move.isEntry = true →
      (entry.result.answer.fault? = none ↔ entry.before.stack.depth < cap)) ∧
    ∀ pending b body rest r,
      Reaches Recording.host p { machine := start } pending (.block b body rest) r →
      b ≠ .attempt →
      ((∃ t, Recording.host.enter b r = .opened t) ↔ r.machine.stack.depth < cap) := by
  intro start
  have unreplaced : ∀ r : Recording φ, r.Keeps start p.moves →
      ∀ record ∈ r.history, ∀ next, record.move ≠ .call (.replace next) := by
    intro r keeps record hr next hc
    exact whole next (hc ▸ keeps.made record hr)
  have keeps := run_keeps_history start p
  refine ⟨?_, ?_, ?_⟩
  · intro past hs
    have happened := keeps.happened.of_suffix hs
    have earlier : ∀ record ∈ past, ∀ next, record.move ≠ .call (.replace next) :=
      fun record hr => unreplaced _ keeps record (hs.subset hr)
    have bound : (now start past).stack.depth ≤ max cap s.depth + pushes past :=
      happened.depth_le earlier limited
    refine ⟨bound, fun none => ?_, happened.limit_eq earlier⟩
    rwa [none] at bound
  · intro entry he enters
    obtain ⟨earlier, hs, same⟩ := keeps.happened.of_mem he
    have still := (keeps.happened.of_suffix ((List.suffix_cons _ _).trans hs)).limit_eq
      (fun record hr => unreplaced _ keeps record
        (((List.suffix_cons _ _).trans hs).subset hr))
    rw [same]
    cases hm : entry.move with
    | enter manner frame =>
        show ((now start earlier).enter manner frame).answer.fault? = none ↔ _
        rw [Machine.fault?_enter, Option.map_eq_none_iff]
        exact Limit.refusal?_eq_none_of_max (by rw [still]; exact limited)
    | call c => rw [hm] at enters; cases enters
    | leave => rw [hm] at enters; cases enters
    | forget => rw [hm] at enters; cases enters
  · intro pending b body rest r way entry
    have there : r.Keeps start p.moves :=
      reaches_keeps way (fun _ ha _ h => h.act ha) (fun _ hb _ h => h.enter hb)
        (fun _ hb o _ h => h.leave hb o) (Recording.keeps_nothing start p.moves)
    have still := there.happened.limit_eq (unreplaced r there)
    rw [there.now_eq] at still
    rw [Recording.opened_iff entry]
    exact Limit.refusal?_eq_none_of_max (by rw [still]; exact limited)

/-- A body that pushes two frames of its own, tries to enter a third and forgets its guard. -/
def crowding : Program (Act Frame) (Block Frame) :=
  .block (.enter (.numbered 1) true true)
    (.act (.call (.push (.numbered 2))) <|
      .act (.call (.push (.numbered 3))) <|
      .block (.enterHidden (.numbered 4) false) .done .done)
    .done

theorem depth_bounded_of_crowding :
    let s : Stack Frame := .ofList { max := some 2 } [.numbered 0]
    let start : Machine Frame := { stack := s }
    let history := (start.run crowding).1.history
    s.limit.max = some 2 ∧ (∀ next, .call (.replace next) ∉ crowding.moves) ∧
      pushes history = 2 ∧ (now start history).stack.depth = 4 ∧
      (now start history).stack.depth ≤ 2 + 2 := by
  intro s start history
  have whole : ∀ next, .call (.replace next) ∉ crowding.moves := by
    intro next h
    simp [crowding, Program.moves, Program.acts, Program.blocks, Act.moves, Block.moves] at h
  have pushed : pushes history = 2 := by decide
  obtain ⟨points, -⟩ := depth_bounded s 2 rfl crowding whole
  have bound := (points history (List.suffix_refl _)).1
  rw [pushed] at bound
  exact ⟨rfl, whole, pushed, by decide, bound⟩

end CallPath
