import CallPath.Proofs.History
import CallPath.Session.Frame

/-!
# The log replays the depth

Who is told that a stack lost its balance has the log and nothing else. So the log must be
enough to say how deep the stack was at any moment: a counter that starts at the depth of the
beginning and does what the events say is never wrong.

There is more to it than the changes. Most events carry a number, and some carry none but
could not have happened at another depth. Each of them agrees with the counter
(`Event.Agrees`), also the two that one unbalanced exit logs, of which the first tells the
depth that was found and only the second changes it. So the law is about events and not about
moves: `Follows` walks a log event by event, and what one move logs is a stretch of the walk
from the depth before it to the depth after it (`Machine.step_follows`).
-/

namespace CallPath

variable {φ : Type}

/-- What was logged by now, in order. -/
def log (past : List (Record φ)) : List Event :=
  past.reverse.flatMap (fun record => record.result.effect.events)

theorem log_cons (record : Record φ) (past : List (Record φ)) :
    log (record :: past) = log past ++ record.result.effect.events := by
  simp [log]

namespace Event

/-- What a counter that reads the log makes of an event. -/
def advance (counter : Int) : Event → Int
  | pushed _ => counter + 1
  | popped _ => counter - 1
  | cleared => 0
  | truncated depth => depth
  | _ => counter

/-- Whether an event can be true on a stack as deep as the counter says. A change tells the
depth after it, and everything else the depth at the time. A guard that could not pop the frame
it had found is an event that never happens. -/
def Agrees (counter : Int) (event : Event) : Prop :=
  match event with
  | pushed depth | popped depth => (depth : Int) = event.advance counter
  | truncated depth => (depth : Int) = event.advance counter ∧ event.advance counter ≤ counter
  | swapped depth | refused depth _ | unbalanced depth _ => (depth : Int) = counter
  | setOutOfBounds index depth => (depth : Int) = counter ∧ counter ≤ index
  | popOnEmpty | swapOnEmpty => counter = 0
  | replaced _ | cleared => True
  | guardPopFailed _ => False

end Event

/-- `Follows first events last` says that a counter which starts at `first` can follow the
events to `last`: it never goes below zero, and every event agrees with it. -/
inductive Follows : Int → List Event → Int → Prop where
  | stay {counter : Int} : 0 ≤ counter → Follows counter [] counter
  | read {counter last : Int} {event : Event} {rest : List Event} :
      0 ≤ counter → event.Agrees counter → Follows (event.advance counter) rest last →
      Follows counter (event :: rest) last

namespace Follows

variable {first middle last : Int} {events more : List Event}

theorem append (h : Follows first events middle) (h' : Follows middle more last) :
    Follows first (events ++ more) last := by
  induction h with
  | stay _ => exact h'
  | read positive agrees _ ih => exact .read positive agrees (ih h')

theorem foldl_eq (h : Follows first events last) : events.foldl Event.advance first = last := by
  induction h with
  | stay _ => rfl
  | read _ _ _ ih => exact ih

theorem nonneg (h : Follows first events last) : 0 ≤ first := by
  cases h with
  | stay positive => exact positive
  | read positive _ _ => exact positive

/-- Every event is read at some point of the way. -/
theorem at_event {seen rest : List Event} {event : Event}
    (h : Follows first (seen ++ event :: rest) last) :
    let counter := seen.foldl Event.advance first
    0 ≤ counter ∧ 0 ≤ event.advance counter ∧ event.Agrees counter := by
  induction seen generalizing first with
  | nil =>
      cases h with
      | read positive agrees further => exact ⟨positive, further.nonneg, agrees⟩
  | cons earlier seen ih =>
      cases h with
      | read _ _ further => exact ih further

/-- Events that say nothing of a change leave the depth as it is. -/
theorem unchanged {depth : Nat} {event : Event} (same : event.advance depth = depth)
    (agrees : event.Agrees depth) : Follows depth [event] depth := by
  refine .read (Int.natCast_nonneg depth) agrees ?_
  rw [same]
  exact .stay (Int.natCast_nonneg depth)

/-- An event that tells the depth after it. -/
theorem changed {before after : Nat} {event : Event} (next : event.advance before = after)
    (agrees : event.Agrees before) : Follows before [event] after := by
  refine .read (Int.natCast_nonneg before) agrees ?_
  rw [next]
  exact .stay (Int.natCast_nonneg after)

end Follows

variable [Sentinel φ] [DecidableEq φ]

/-! ## What one move logs -/

/-- What a call logs leads from the depth before it to the depth after it. -/
theorem Stack.call_follows (s : Stack φ) {c : Call φ} (whole : ∀ next, c ≠ .replace next) :
    Follows s.depth (s.call c).effect.events (s.call c).stack.depth := by
  have idle : Follows s.depth [] s.depth := .stay (Int.natCast_nonneg _)
  cases c with
  | push frame =>
      show Follows s.depth [.pushed (s.push frame).depth] (s.push frame).depth
      rw [depth_push]
      exact .changed rfl rfl
  | pop =>
      cases hs : s.pop? with
      | none =>
          rw [call_pop_of_none hs, pop?_eq_none_iff_depth.mp hs]
          exact .unchanged rfl rfl
      | some popped =>
          rw [call_pop_of_some hs, depth_of_pop? hs]
          have next : ((popped.2.depth + 1 : Nat) : Int) - 1 = popped.2.depth := by omega
          exact .changed next next.symm
  | swap frame =>
      cases hs : s.swap? frame with
      | none =>
          rw [call_swap_of_none hs, swap?_eq_none_iff_depth.mp hs]
          exact .unchanged rfl rfl
      | some swapped =>
          rw [call_swap_of_some hs, depth_of_swap? hs]
          exact .unchanged rfl rfl
  | set level frame =>
      cases hs : s.set? level frame with
      | none =>
          rw [call_set_of_none hs]
          exact .unchanged rfl ⟨rfl, Int.ofNat_le.mpr (set?_eq_none_iff_depth.mp hs)⟩
      | some written =>
          rw [call_set_of_some hs, depth_of_set? hs]
          exact .unchanged rfl trivial
  | clear => exact .changed rfl trivial
  | replace next => exact absurd rfl (whole next)
  | _ => exact idle

/-- What an exit logs does so, too: a pop alone, or the depth that was found and then the
cut. -/
theorem Machine.release_follows (s : Stack φ) (guard : Guard φ) :
    Follows s.depth (release s guard).2.events (release s guard).1.depth := by
  by_cases balanced : s.depth = guard.entryDepth + 1
  · obtain ⟨frame, rest, hp, -⟩ := Stack.pop?_of_depth balanced
    have popped := s.call_follows (c := .pop) nofun
    rw [Stack.call_pop_of_some hp] at popped
    rw [release_balanced balanced hp]
    exact popped
  · have found : Follows s.depth [.unbalanced s.depth (guard.entryDepth + 1)] s.depth :=
      .unchanged rfl rfl
    have cut : (s.truncate guard.entryDepth).depth ≤ s.depth := by
      rw [Stack.depth_truncate]
      exact Nat.min_le_left _ _
    rw [release_unbalanced balanced]
    exact found.append (.changed rfl ⟨rfl, Int.ofNat_le.mpr cut⟩)

/-- **What a move logs leads from the depth before it to the depth after it.** -/
theorem Machine.step_follows (m : Machine φ) {mv : Move φ}
    (whole : ∀ next, mv ≠ .call (.replace next)) :
    Follows m.stack.depth (m.step mv).effect.events (m.step mv).machine.stack.depth := by
  have idle : Follows m.stack.depth [] m.stack.depth := .stay (Int.natCast_nonneg _)
  cases mv with
  | call c => exact m.stack.call_follows (fun next hc => whole next (congrArg Move.call hc))
  | enter manner frame =>
      show Follows m.stack.depth (m.enter manner frame).effect.events
        (m.enter manner frame).machine.stack.depth
      cases hr : m.stack.limit.refusal? m.stack.depth with
      | some limit =>
          rw [enter_refused hr]
          exact .unchanged rfl rfl
      | none =>
          rw [enter_accepted hr]
          exact m.stack.call_follows (c := .push frame) nofun
  | leave =>
      show Follows m.stack.depth m.leave.effect.events m.leave.machine.stack.depth
      cases hg : m.guards with
      | nil =>
          rw [leave_of_nil hg]
          exact idle
      | cons guard rest =>
          rw [leave_of_cons hg]
          exact release_follows m.stack guard
  | forget =>
      obtain ⟨stack, guards, forgotten⟩ := m
      cases guards <;> exact idle

/-! ## What a run logs -/

theorem Happened.follows {start : Machine φ} {past : List (Record φ)} (h : Happened start past)
    (whole : ∀ record ∈ past, ∀ next, record.move ≠ .call (.replace next)) :
    Follows start.stack.depth (log past) (now start past).stack.depth := by
  induction h with
  | nil => exact .stay (Int.natCast_nonneg _)
  | @move past mv _ ih =>
      have before := ih (fun record hr => whole record (List.mem_cons_of_mem _ hr))
      have step := (now start past).step_follows (whole _ List.mem_cons_self)
      rw [log_cons]
      exact before.append step

/-- **The log replays the depth.** Take any program that never replaces the stack as a whole,
and a counter that starts at the depth of the beginning and reads the log. At every point of
the run, after every call and every exit, it stands at the depth. On the way it never goes
below zero, and it agrees with every single event: with the depths that changes tell, those
that were found by what changed nothing, and those at which a cut, a refused pop, swap or write
can have been. -/
theorem log_replays_depth (start : Machine φ) (p : Program (Act φ) (Block φ))
    (whole : ∀ next, .call (.replace next) ∉ p.moves) :
    (∀ past, past <:+ (start.run p).1.history →
      (log past).foldl Event.advance start.stack.depth = (now start past).stack.depth) ∧
    ∀ seen event rest, log (start.run p).1.history = seen ++ event :: rest →
      let counter := seen.foldl Event.advance start.stack.depth
      0 ≤ counter ∧ 0 ≤ event.advance counter ∧ event.Agrees counter := by
  obtain ⟨happened, -, made⟩ := run_keeps_history start p
  have unreplaced : ∀ record ∈ (start.run p).1.history, ∀ next,
      record.move ≠ .call (.replace next) :=
    fun record hr next hc => whole next (hc ▸ made record hr)
  refine ⟨?_, ?_⟩
  · intro past hs
    have follows := (happened.of_suffix hs).follows
      (fun record hr => unreplaced record (hs.subset hr))
    exact follows.foldl_eq
  · intro seen event rest split
    have follows := happened.follows unreplaced
    rw [split] at follows
    exact follows.at_event

/-- A body that writes past the bottom, is refused an entry, takes its own frame away and then
one that is not there. -/
def turbulent : Program (Act Frame) (Block Frame) :=
  .block (.enter (.numbered 1) true false)
    (.act (.call (.set 5 (.numbered 2))) <|
      .act (.call (.push (.numbered 3))) <|
      .block (.enterHidden (.numbered 4) false) .done <|
      .act (.call .clear) <|
      .act (.call .pop) .done)
    .done

theorem log_of_turbulent :
    let start : Machine Frame := { stack := .ofList { max := some 3 } [.numbered 0] }
    let history := (start.run turbulent).1.history
    (∀ next, .call (.replace next) ∉ turbulent.moves) ∧
      log history = [.pushed 2, .setOutOfBounds 5 2, .pushed 3, .refused 3 3, .cleared,
        .popOnEmpty, .unbalanced 0 2, .truncated 0] ∧
      (log history).foldl Event.advance 1 = (now start history).stack.depth := by
  intro start history
  have whole : ∀ next, .call (.replace next) ∉ turbulent.moves := by
    intro next h
    simp [turbulent, Program.moves, Program.acts, Program.blocks, Act.moves, Block.moves] at h
  have replayed := (log_replays_depth start turbulent whole).1 history (List.suffix_refl _)
  exact ⟨whole, by decide, replayed⟩

end CallPath
