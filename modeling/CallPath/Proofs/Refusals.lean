import CallPath.Proofs.EventLog
import CallPath.Proofs.LimitTransparency
import CallPath.Session.Basic

/-!
# What is refused, and how

Four calls can be refused, and whether they are can be told beforehand from two numbers, the
depth and the limit (`Machine.obstacle?`). A refusal is an answer and nothing more
(`Transition.Refuses`): the machine is what it was, with every guard on it, the frame that was
passed is given up, and one event announces it. How loudly depends on whose fault it is. Pushes
and pops that got out of step are worth a warning; a script that calls too deeply is not.

No other event is announced at either of these levels, so in a log the warnings can be counted
in place of the faults (`Happened.countP_log`), whatever a program made of them.
-/

namespace CallPath

variable {φ : Type}

/-- How loudly a fault is announced. -/
def Fault.level (fault : Fault) : Level := if fault.isInternal then .warn else .debug

/-- What stands in the way of a move, if anything does. -/
def Machine.obstacle? (m : Machine φ) : Move φ → Option Fault
  | .call .pop => if m.stack.depth = 0 then some (.emptyStack "pop") else none
  | .call (.swap _) => if m.stack.depth = 0 then some (.emptyStack "swap") else none
  | .call (.set level _) =>
      if m.stack.depth ≤ level then some (.outOfBounds level m.stack.depth) else none
  | .enter _ _ =>
      m.stack.limit.max.bind (fun max =>
        if max ≤ m.stack.depth then some (.recursionLimit max) else none)
  | _ => none

/-- A refusal on the machine `m` of a move that was given the handles `given`. -/
structure Transition.Refuses (t : Transition φ) (m : Machine φ) (given : List φ)
    (fault : Fault) : Prop where
  answer : t.answer = .fault fault
  machine : t.machine = m
  cloned : t.effect.cloned = []
  dropped : t.effect.dropped = given
  announced : ∃ event, event.level = fault.level ∧ t.effect.events = [event]

/-- A transition that was not refused announces no fault. -/
structure Transition.Accepts (t : Transition φ) : Prop where
  answer : t.answer.fault? = none
  quiet : ∀ event ∈ t.effect.events, event.level = .trace ∨ event.level = .error

theorem Limit.refusal?_eq_bind (limit : Limit) (depth : Nat) :
    (limit.refusal? depth).map Fault.recursionLimit
      = limit.max.bind (fun max => if max ≤ depth then some (.recursionLimit max) else none) := by
  cases hm : limit.max with
  | none => simp [refusal?, hm]
  | some max => by_cases h : max ≤ depth <;> simp [refusal?, hm, Option.filter, h]

variable [Sentinel φ] [DecidableEq φ]

/-! ## Moves that are refused, and moves that are not -/

namespace Machine

/-- A call that nothing stands in the way of is traced, if it changes anything. -/
theorem call_accepts {m : Machine φ} {c : Call φ} (free : m.obstacle? (.call c) = none) :
    (m.step (.call c)).Accepts := by
  have unlogged : ∀ event ∈ ([] : List Event), event.level = .trace ∨ event.level = .error := nofun
  have traced : ∀ e : Event, e.level = .trace →
      ∀ event ∈ [e], event.level = .trace ∨ event.level = .error := by
    intro e he event hevent
    rw [List.mem_singleton.mp hevent]
    exact .inl he
  cases c with
  | pop =>
      have filled : m.stack.depth ≠ 0 := fun empty => by simp [obstacle?, empty] at free
      cases hs : m.stack.pop? with
      | none => exact absurd (Stack.pop?_eq_none_iff_depth.mp hs) filled
      | some popped =>
          simp only [step, call, Stack.call_pop_of_some hs]
          exact ⟨rfl, traced _ rfl⟩
  | swap frame =>
      have filled : m.stack.depth ≠ 0 := fun empty => by simp [obstacle?, empty] at free
      cases hs : m.stack.swap? frame with
      | none => exact absurd (Stack.swap?_eq_none_iff_depth.mp hs) filled
      | some swapped =>
          simp only [step, call, Stack.call_swap_of_some hs]
          exact ⟨rfl, traced _ rfl⟩
  | set level frame =>
      have inside : ¬ m.stack.depth ≤ level := fun outside => by simp [obstacle?, outside] at free
      cases hs : m.stack.set? level frame with
      | none => exact absurd (Stack.set?_eq_none_iff_depth.mp hs) inside
      | some written =>
          simp only [step, call, Stack.call_set_of_some hs]
          exact ⟨rfl, traced _ rfl⟩
  | push frame => exact ⟨rfl, traced _ rfl⟩
  | clear => exact ⟨rfl, traced _ rfl⟩
  | _ => exact ⟨rfl, unlogged⟩

/-- An exit that finds the wrong depth is an error, but nothing that was refused. -/
theorem leave_accepts (m : Machine φ) : m.leave.Accepts := by
  cases hg : m.guards with
  | nil =>
      rw [leave_of_nil hg]
      exact ⟨rfl, nofun⟩
  | cons guard rest =>
      rw [leave_of_cons hg]
      refine ⟨rfl, fun event hevent => ?_⟩
      dsimp only at hevent
      rw [events_release, exitEvents] at hevent
      split at hevent
      · rw [List.mem_singleton.mp hevent]
        exact .inl rfl
      · rcases List.mem_pair.mp hevent with rfl | rfl
        · exact .inr rfl
        · exact .inl rfl

/-- **A move that nothing stands in the way of is not refused.** -/
theorem step_accepts {m : Machine φ} {mv : Move φ} (free : m.obstacle? mv = none) :
    (m.step mv).Accepts := by
  cases mv with
  | call c => exact call_accepts free
  | enter manner frame =>
      have accepted : m.stack.limit.refusal? m.stack.depth = none := by
        rw [obstacle?, ← Limit.refusal?_eq_bind] at free
        exact Option.map_eq_none_iff.mp free
      show (m.enter manner frame).Accepts
      rw [enter_accepted accepted]
      refine ⟨rfl, fun event hevent => .inl ?_⟩
      rw [List.mem_singleton.mp hevent]
      rfl
  | leave => exact m.leave_accepts
  | forget =>
      obtain ⟨stack, guards, forgotten⟩ := m
      cases guards <;> exact ⟨rfl, nofun⟩

/-- **A move that something stands in the way of is refused for it.** -/
theorem step_refuses {m : Machine φ} {mv : Move φ} {fault : Fault}
    (obstacle : m.obstacle? mv = some fault) : (m.step mv).Refuses m mv.given fault := by
  cases mv with
  | call c =>
      cases c with
      | pop =>
          obtain ⟨empty, same⟩ := Option.ite_none_right_eq_some.mp obstacle
          cases same
          have hs := Stack.pop?_eq_none_iff_depth.mpr empty
          simp only [step, call, Stack.call_pop_of_none hs]
          exact ⟨rfl, rfl, rfl, rfl, .popOnEmpty, rfl, rfl⟩
      | swap frame =>
          obtain ⟨empty, same⟩ := Option.ite_none_right_eq_some.mp obstacle
          cases same
          have hs : m.stack.swap? frame = none := Stack.swap?_eq_none_iff_depth.mpr empty
          simp only [step, call, Stack.call_swap_of_none hs]
          exact ⟨rfl, rfl, rfl, rfl, .swapOnEmpty, rfl, rfl⟩
      | set level frame =>
          obtain ⟨outside, same⟩ := Option.ite_none_right_eq_some.mp obstacle
          cases same
          have hs : m.stack.set? level frame = none := Stack.set?_eq_none_iff_depth.mpr outside
          simp only [step, call, Stack.call_set_of_none hs]
          exact ⟨rfl, rfl, rfl, rfl, .setOutOfBounds level m.stack.depth, rfl, rfl⟩
      | _ => cases obstacle
  | enter manner frame =>
      rw [obstacle?, ← Limit.refusal?_eq_bind] at obstacle
      obtain ⟨max, refused, rfl⟩ := Option.map_eq_some_iff.mp obstacle
      show (m.enter manner frame).Refuses m [frame] _
      rw [enter_refused refused]
      exact ⟨rfl, rfl, rfl, rfl, .refused m.stack.depth max, rfl, rfl⟩
  | leave => cases obstacle
  | forget => cases obstacle

theorem fault?_step (m : Machine φ) (mv : Move φ) :
    (m.step mv).answer.fault? = m.obstacle? mv := by
  cases ho : m.obstacle? mv with
  | none => exact (step_accepts ho).answer
  | some fault =>
      rw [(step_refuses ho).answer]
      rfl

/-! ## Counting in the log -/

/-- A move announces as many faults as it is refused for, which is one at most. -/
theorem countP_step (m : Machine φ) (mv : Move φ) {level : Level}
    (blames : level = .warn ∨ level = .debug) :
    (m.step mv).effect.events.countP (fun event => event.level = level)
      = if (m.step mv).answer.fault?.any (fun fault => fault.level = level) then 1 else 0 := by
  rw [m.fault?_step]
  cases ho : m.obstacle? mv with
  | none =>
      rw [Option.any_none, if_neg Bool.false_ne_true, List.countP_eq_zero]
      intro event hevent same
      have same := of_decide_eq_true same
      rcases (step_accepts ho).quiet event hevent with quiet | quiet <;>
        rcases blames with rfl | rfl <;> rw [same] at quiet <;> cases quiet
  | some fault =>
      obtain ⟨event, loud, single⟩ := (step_refuses ho).announced
      rw [single, List.countP_singleton, Option.any_some, loud]

end Machine

/-- **The log has one announcement for every refusal,** at the level of its fault. -/
theorem Happened.countP_log {start : Machine φ} {past : List (Record φ)}
    (h : Happened start past) {level : Level} (blames : level = .warn ∨ level = .debug) :
    (log past).countP (fun event => event.level = level)
      = past.countP (fun record =>
          record.result.answer.fault?.any (fun fault => fault.level = level)) := by
  induction h with
  | nil => rfl
  | @move past mv _ ih =>
      rw [log_cons, List.countP_append, ih, List.countP_cons]
      exact congrArg _ ((now start past).countP_step mv blames)

omit [Sentinel φ] [DecidableEq φ] in
theorem Record.any_fault_warn (record : Record φ) :
    record.result.answer.fault?.any (fun fault => fault.level = .warn)
      = record.result.answer.fault?.any Fault.isInternal := by
  cases record.result.answer.fault? with
  | none => rfl
  | some fault => cases fault <;> rfl

omit [Sentinel φ] [DecidableEq φ] in
theorem Record.any_fault_debug (record : Record φ) :
    record.result.answer.fault?.any (fun fault => fault.level = .debug)
      = record.hitsLimit := by
  unfold Record.hitsLimit
  cases record.result.answer.fault? with
  | none => rfl
  | some fault => cases fault <;> rfl

/-! ## Bodies and sessions -/

/-- The body of an entry that is refused is not run, whatever it is. -/
theorem Recording.run_refused {r : Recording φ} {b : Block φ} {entry : Move φ} {fault : Fault}
    (opens : b.moves.head? = some entry) (obstacle : r.machine.obstacle? entry = some fault) :
    ∃ o, (o = .returned ∨ o = .failed (.refusal fault)) ∧ ∀ body rest,
      (Program.block b body rest).run Recording.host r
        = andThen (r.move entry, o) (rest.run Recording.host) := by
  have each : ∀ manner frame insist, r.machine.obstacle? (.enter manner frame) = some fault →
      ∃ o, (o = .returned ∨ o = .failed (.refusal fault)) ∧
        r.enter manner frame insist = .skipped (r.move (.enter manner frame)) o := by
    intro manner frame insist obstacle
    have refused : (r.machine.enter manner frame).answer.fault? = some fault :=
      (r.machine.fault?_step (.enter manner frame)).trans obstacle
    unfold Recording.enter
    dsimp only
    rw [refused]
    cases insist with
    | false => exact ⟨.returned, .inl rfl, rfl⟩
    | true => exact ⟨.failed (.refusal fault), .inr rfl, rfl⟩
  have skipped : ∃ o, (o = .returned ∨ o = .failed (.refusal fault)) ∧
      Recording.host.enter b r = .skipped (r.move entry) o := by
    cases b with
    | enter frame insist forget =>
        cases opens
        exact each .reachable frame insist obstacle
    | enterHidden frame insist =>
        cases opens
        exact each .hidden frame insist obstacle
    | attempt => cases opens
  obtain ⟨o, ends, hskip⟩ := skipped
  refine ⟨o, ends, fun body rest => ?_⟩
  rw [Program.run, hskip]

/-- All that a refused move does to a session is an event in its log and the release of the
handle that it was given. -/
theorem Session.moved_refused {s : Session} {mv : Move Frame} {fault : Fault}
    (obstacle : s.machine.obstacle? mv = some fault) :
    ∃ event, event.level = fault.level ∧ s.moved (s.machine.step mv)
      = Session.release { s with log := s.log ++ [event] } mv.given := by
  have refused := Machine.step_refuses obstacle
  obtain ⟨event, loud, single⟩ := refused.announced
  refine ⟨event, loud, ?_⟩
  unfold Session.moved Session.absorb
  rw [refused.machine, refused.cloned, refused.dropped, single]
  rfl

/-- **Refusals are exact, change nothing and are announced once.** On any machine, under any
guards, a move is refused exactly if something stands in its way, and for that reason. The
refusal leaves the machine as it is, and whatever session the machine is part of, but for the
handle that the move was given and one event in the log: a warning if the fault is internal,
and one for debugging if not. The body of a refused entry is not run. So at every point of
every run the log has as many warnings as there were internal faults, and as many events for
debugging as there were entries that the limit refused. -/
theorem refusals_exact :
    (∀ (m : Machine φ) (mv : Move φ), (m.step mv).answer.fault? = m.obstacle? mv ∧
      ∀ fault, m.obstacle? mv = some fault → (m.step mv).Refuses m mv.given fault) ∧
    (∀ (s : Session) (mv : Move Frame) (fault : Fault), s.machine.obstacle? mv = some fault →
      ∃ event, event.level = fault.level ∧ s.moved (s.machine.step mv)
        = Session.release { s with log := s.log ++ [event] } mv.given) ∧
    (∀ (r : Recording φ) (b : Block φ) (entry : Move φ) (fault : Fault),
      b.moves.head? = some entry → r.machine.obstacle? entry = some fault →
      ∃ o, (o = .returned ∨ o = .failed (.refusal fault)) ∧ ∀ body rest,
        (Program.block b body rest).run Recording.host r
          = andThen (r.move entry, o) (rest.run Recording.host)) ∧
    ∀ (start : Machine φ) (p : Program (Act φ) (Block φ)) (past : List (Record φ)),
      past <:+ (start.run p).1.history →
      (log past).countP (fun event => event.level = .warn)
        = past.countP (fun record => record.result.answer.fault?.any Fault.isInternal) ∧
      (log past).countP (fun event => event.level = .debug) = past.countP Record.hitsLimit := by
  refine ⟨?_, ?_, ?_, ?_⟩
  · exact fun m mv => ⟨m.fault?_step mv, fun fault obstacle => Machine.step_refuses obstacle⟩
  · exact fun s mv fault obstacle => Session.moved_refused obstacle
  · exact fun r b entry fault opens obstacle => Recording.run_refused opens obstacle
  · intro start p past hs
    have happened := (run_keeps_history start p).happened.of_suffix hs
    have warnings := happened.countP_log (.inl rfl : Level.warn = .warn ∨ _)
    have stops := happened.countP_log (.inr rfl : Level.debug = .warn ∨ _)
    simp only [Record.any_fault_warn] at warnings
    simp only [Record.any_fault_debug] at stops
    exact ⟨warnings, stops⟩

/-- A body that gets its pops, swaps and writes wrong and asks for one more frame than there
may be, all of it inside an attempt. -/
def fumbling : Program (Act Frame) (Block Frame) :=
  .block .attempt
    (.block (.enter (.numbered 0) true false)
      (.act (.call (.set 1 (.numbered 1))) <|
        .act (.call .pop) <|
        .act (.call .pop) <|
        .act (.call (.swap (.numbered 2))) <|
        .act (.call (.push (.numbered 3))) <|
        .block (.enterHidden (.numbered 4) true) (.act (.call .clear) .done) .done)
      .done)
    .done

theorem refusals_of_fumbling :
    let start : Machine Frame := { stack := .ofList { max := some 1 } [] }
    let full : Recording Frame := { machine := { stack := .ofList { max := some 1 } [.native] } }
    let entry : Move Frame := .enter .hidden (.numbered 4)
    let history := (start.run fumbling).1.history
    full.machine.obstacle? entry = some (.recursionLimit 1) ∧
      (full.machine.step entry).Refuses full.machine [.numbered 4] (.recursionLimit 1) ∧
      (∃ o, (Program.block (.enterHidden (.numbered 4) true) fumbling .done).run Recording.host full
        = andThen (full.move entry, o) (Program.done.run Recording.host)) ∧
      (log history).countP (fun event => event.level = .warn) = 3 ∧
      (log history).countP (fun event => event.level = .debug) = 1 := by
  intro start full entry history
  have obstacle : full.machine.obstacle? entry = some (.recursionLimit 1) := rfl
  obtain ⟨exact, -, skipped, counted⟩ := refusals_exact (φ := Frame)
  obtain ⟨o, -, unrun⟩ := skipped full (.enterHidden (.numbered 4) true) entry _ rfl obstacle
  obtain ⟨warnings, stops⟩ := counted start fumbling history (List.suffix_refl _)
  refine ⟨obstacle, (exact full.machine entry).2 _ obstacle, ⟨o, unrun _ _⟩, ?_⟩
  rw [warnings, stops]
  decide

end CallPath
