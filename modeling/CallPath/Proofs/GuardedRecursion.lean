import CallPath.Proofs.EventLog
import CallPath.Proofs.HandleFlow

/-!
# How deep a recursion gets

A function that enters a frame and calls itself stops in one of two ways: it has made all its
calls, or an entry is refused. The limit decides which. If it leaves room for all of them, the
innermost call sees them all on the stack; if not, the entries fill the stack up to the limit,
and the next one is refused there. On a stack that is as deep as that already the very first
one is.

Whichever it is, the way back is the way down in reverse. An exit undoes its entry if nothing
changed in between (`Descent.inside_of_unchanged`), and the call in between changes nothing
because it comes back the same way, so no guard ever finds its stack unbalanced. What remains of
it all is one push for each entry and one pop for each exit, around whatever happened at the
turning point.
-/

namespace CallPath

variable {φ : Type}

/-! ## Down and back -/

/-- What `k` entries log that begin at depth `depth`. -/
def pushesFrom (depth k : Nat) : List Event := (List.range' (depth + 1) k).map Event.pushed

/-- What `k` exits log that end at depth `depth`. -/
def popsTo (depth k : Nat) : List Event := ((List.range' depth k).map Event.popped).reverse

theorem pushesFrom_succ (depth k : Nat) :
    pushesFrom depth (k + 1) = .pushed (depth + 1) :: pushesFrom (depth + 1) k := rfl

theorem popsTo_succ (depth k : Nat) :
    popsTo depth (k + 1) = popsTo (depth + 1) k ++ [.popped depth] := by
  rw [popsTo, List.range'_succ, List.map_cons, List.reverse_cons]
  rfl

/-- What it comes to that the frames `fresh i`, `fresh (i + 1)` and so on are entered, `k` of
them from depth `depth` on, that something happens then, and that they are all left again. An
exit gives up two handles, one for the slot and one for the guard. -/
def thereAndBack (fresh : Nat → φ) (i depth k : Nat) (between : Effect φ) : Effect φ :=
  { events := pushesFrom depth k ++ between.events ++ popsTo depth k
    cloned := (List.range' i k).map fresh ++ between.cloned
    dropped := between.dropped
      ++ ((List.range' i k).map fresh).reverse.flatMap (fun frame => [frame, frame]) }

theorem thereAndBack_zero (fresh : Nat → φ) (i depth : Nat) (between : Effect φ) :
    thereAndBack fresh i depth 0 between = between := by
  simp [thereAndBack, pushesFrom, popsTo]

/-- One entry more goes all around the others. -/
theorem thereAndBack_succ (fresh : Nat → φ) (i depth k : Nat) (between : Effect φ) :
    thereAndBack fresh i depth (k + 1) between
      = (Effect.andThen { events := [.pushed (depth + 1)], cloned := [fresh i] }
          (thereAndBack fresh (i + 1) (depth + 1) k between)).andThen
        { events := [.popped depth], dropped := [fresh i, fresh i] } := by
  simp only [thereAndBack, Effect.andThen, pushesFrom_succ, popsTo_succ, List.range'_succ,
    List.map_cons, List.reverse_cons, List.flatMap_append, List.flatMap_singleton,
    List.cons_append, List.append_assoc, List.nil_append, List.append_nil]

theorem level_thereAndBack {fresh : Nat → φ} {i depth k : Nat} {between : Effect φ} :
    ∀ event ∈ (thereAndBack fresh i depth k between).events,
      event ∈ between.events ∨ event.level = .trace := by
  intro event he
  rcases List.mem_append.mp he with he | he
  · rcases List.mem_append.mp he with he | he
    · obtain ⟨level, -, rfl⟩ := List.mem_map.mp he
      exact .inr rfl
    · exact .inl he
  · obtain ⟨level, -, rfl⟩ := List.mem_map.mp (List.mem_reverse.mp he)
    exact .inr rfl

/-! ## One call -/

section

variable [Sentinel φ] [DecidableEq φ] {m : Machine φ} {fresh : Nat → φ} {i n : Nat}

theorem Machine.stack_of_entered {manner : Manner} {frame : φ}
    (accepted : m.stack.limit.refusal? m.stack.depth = none) :
    (m.enter manner frame).machine.stack = m.stack.push frame := by
  rw [enter_accepted accepted]

/-- An exit right after its entry leaves the machine as it was. -/
theorem Machine.leave_of_entered {frame : φ}
    (accepted : m.stack.limit.refusal? m.stack.depth = none) :
    (m.enter .reachable frame).machine.leave =
      { machine := m, effect := { events := [.popped m.stack.depth], dropped := [frame, frame] } }
    := by
  have popped : (m.stack.push frame).pop? = some (frame, m.stack) :=
    Stack.pop?_eq_some.mpr ⟨m.stack.toList_push frame, rfl⟩
  rw [enter_accepted accepted, leave_of_cons rfl,
    release_balanced (m.stack.depth_push frame) popped]

/-- If the call inside changes nothing, the call around it changes nothing either. -/
theorem Descent.inside_of_unchanged {inner : Descent φ} {k : Nat} {between : Effect φ}
    (accepted : m.stack.limit.refusal? m.stack.depth = none)
    (unchanged : inner.machine = (m.enter .reachable (fresh i)).machine)
    (nested : inner.effect = thereAndBack fresh (i + 1) (m.stack.depth + 1) k between) :
    Descent.inside (m.enter .reachable (fresh i)) inner =
      { result := inner.result, machine := m
        effect := thereAndBack fresh i m.stack.depth (k + 1) between
        frames := inner.frames + 1 } := by
  have entered : m.enter .reachable (fresh i) = _ := Machine.enter_accepted accepted
  rw [inside, nested, unchanged, Machine.leave_of_entered accepted, thereAndBack_succ, entered,
    Stack.depth_push]

/-! ## All calls -/

/-- With room for all of its calls, a recursion sees them all on the stack. -/
theorem Machine.descend_of_room (room : m.stack.limit.refusal? (m.stack.depth + n) = none) :
    m.descend fresh i n =
      { result := .ok (m.stack.depth + n + 1), machine := m
        effect := thereAndBack fresh i m.stack.depth (n + 1) {}
        frames := n + 1 } := by
  induction n generalizing i m with
  | zero =>
      rw [descend_zero room, Descent.inside_of_unchanged (k := 0) room rfl
        (thereAndBack_zero _ _ _ _).symm, enter_accepted room]
      simp only [Stack.depth_push, Nat.add_zero, Nat.zero_add]
  | succ n ih =>
      have accepted : m.stack.limit.refusal? m.stack.depth = none :=
        Limit.refusal?_eq_none.mpr (fun max hm => by
          have below := Limit.refusal?_eq_none.mp room max hm
          omega)
      have entered : (m.enter .reachable (fresh i)).machine.stack = _ := stack_of_entered accepted
      have depth := m.stack.depth_push (fresh i)
      -- one call further in, the stack is one deeper and one call less is to come
      have inner := ih (m := (m.enter .reachable (fresh i)).machine) (i := i + 1) (by
        rw [entered, depth, Nat.add_right_comm]
        exact room)
      rw [entered, depth] at inner
      rw [descend_succ accepted, inner, Descent.inside_of_unchanged accepted rfl rfl,
        Nat.add_right_comm m.stack.depth 1 n, Nat.add_assoc m.stack.depth n 1]

/-- At the limit already, the first entry is refused, with nothing on the way there or back. -/
theorem Machine.descend_of_full {max : Nat} (limit : m.stack.limit.max = some max)
    (full : max ≤ m.stack.depth) :
    m.descend fresh i n =
      { result := .error (.recursionLimit max), machine := m
        effect := thereAndBack fresh i m.stack.depth 0
          { events := [.refused (m.stack.depth + 0) max], dropped := [fresh (i + 0)] }
        frames := 0 + 1 } := by
  rw [descend_refused (Limit.refusal?_eq_some.mpr ⟨limit, full⟩), thereAndBack_zero]
  rfl

/-- Without room for all of them, the calls fill the stack up to the limit, and the next one is
refused. -/
theorem Machine.descend_of_limit {max k : Nat} (limit : m.stack.limit.max = some max)
    (short : max ≤ m.stack.depth + n) (left : max - m.stack.depth = k) :
    m.descend fresh i n =
      { result := .error (.recursionLimit max), machine := m
        effect := thereAndBack fresh i m.stack.depth k
          { events := [.refused (m.stack.depth + k) max], dropped := [fresh (i + k)] }
        frames := k + 1 } := by
  induction n generalizing i m k with
  | zero =>
      obtain rfl : k = 0 := left ▸ Nat.sub_eq_zero_of_le short
      exact descend_of_full limit short
  | succ n ih =>
      by_cases full : max ≤ m.stack.depth
      · obtain rfl : k = 0 := left ▸ Nat.sub_eq_zero_of_le full
        exact descend_of_full limit full
      · have accepted : m.stack.limit.refusal? m.stack.depth = none :=
          (Limit.refusal?_eq_none_of_max limit).mpr (Nat.lt_of_not_le full)
        have entered : (m.enter .reachable (fresh i)).machine.stack = _ :=
          stack_of_entered accepted
        have depth := m.stack.depth_push (fresh i)
        -- one frame more is there, and one less is to come
        obtain ⟨k, rfl⟩ : ∃ further, k = further + 1 :=
          Nat.exists_eq_succ_of_ne_zero (by omega)
        have inner := ih (m := (m.enter .reachable (fresh i)).machine) (i := i + 1) (k := k)
          (by rw [entered]; exact limit) (by rw [entered, depth]; omega)
          (by rw [entered, depth]; omega)
        rw [entered, depth, Nat.add_assoc m.stack.depth, Nat.add_assoc i, Nat.add_comm 1 k]
          at inner
        rw [descend_succ accepted, inner, Descent.inside_of_unchanged accepted rfl rfl]

/-- Whatever it comes to, a recursion leaves the machine as it was. -/
theorem Machine.machine_descend (m : Machine φ) (fresh : Nat → φ) (i n : Nat) :
    (m.descend fresh i n).machine = m := by
  cases hr : m.stack.limit.refusal? (m.stack.depth + n) with
  | none => rw [descend_of_room hr]
  | some max =>
      obtain ⟨limit, short⟩ := Limit.refusal?_eq_some.mp hr
      rw [descend_of_limit limit short rfl]

/-- It has nothing to warn of, and a refusal is the worst that it logs. -/
theorem Machine.level_descend :
    ∀ event ∈ (m.descend fresh i n).effect.events, event.level = .trace ∨ event.level = .debug := by
  intro event he
  cases hr : m.stack.limit.refusal? (m.stack.depth + n) with
  | none =>
      rw [descend_of_room hr] at he
      exact .inl ((level_thereAndBack event he).resolve_left List.not_mem_nil)
  | some max =>
      obtain ⟨limit, short⟩ := Limit.refusal?_eq_some.mp hr
      rw [descend_of_limit limit short rfl] at he
      rcases level_thereAndBack event he with refused | trace
      · rw [List.mem_singleton.mp refused]
        exact .inr rfl
      · exact .inl trace

end

/-! ## The calls as blocks -/

/-- The calls of a recursion as a program: a block for each of them inside the one before, and a
question for the depth in the innermost. -/
def nestedCalls (fresh : Nat → φ) (i : Nat) : Nat → Program (Act φ) (Block φ)
  | 0 => .block (.enter (fresh i) true false) (.act (.call .depth) .done) .done
  | n + 1 => .block (.enter (fresh i) true false) (nestedCalls fresh (i + 1) n) .done

/-- How a program ends whose calls hand a refusal on. -/
def Descent.outcome (descent : Descent φ) : Outcome :=
  match descent.result with
  | .ok _ => .returned
  | .error fault => .failed (.refusal fault)

section

variable [Sentinel φ] [DecidableEq φ] {fresh : Nat → φ} {i n : Nat} {r : Recording φ}
  {body : Program (Act φ) (Block φ)}

/-- A run that began with the recording `r` came to what a recursion comes to. -/
structure Descent.Recorded (descent : Descent φ) (r : Recording φ)
    (ended : Recording φ × Outcome) : Prop where
  machine : ended.1.machine = descent.machine
  events : log ended.1.history = log r.history ++ descent.effect.events
  outcome : ended.2 = descent.outcome

theorem Descent.recorded_refused {max : Nat}
    (full : r.machine.stack.limit.refusal? r.machine.stack.depth = some max) :
    (r.machine.descend fresh i n).Recorded r
      ((Program.block (.enter (fresh i) true false) body .done).run Recording.host r) := by
  have entry : r.machine.enter .reachable (fresh i) = _ := Machine.enter_refused full
  rw [Machine.descend_refused full]
  simp only [Program.run, Recording.host, Recording.enter, entry, Answer.fault?]
  refine ⟨?_, ?_, rfl⟩
  · show (r.machine.enter .reachable (fresh i)).machine = _
    rw [entry]
  · show log (_ :: r.history) = _
    rw [log_cons]
    show _ ++ (r.machine.enter .reachable (fresh i)).effect.events = _
    rw [entry]

theorem Descent.Recorded.inside {inner : Descent φ}
    (accepted : r.machine.stack.limit.refusal? r.machine.stack.depth = none)
    (recorded : inner.Recorded (r.move (.enter .reachable (fresh i)))
      (body.run Recording.host (r.move (.enter .reachable (fresh i))))) :
    (Descent.inside (r.machine.enter .reachable (fresh i)) inner).Recorded r
      ((Program.block (.enter (fresh i) true false) body .done).run Recording.host r) := by
  have opened : Recording.host.enter (.enter (fresh i) true false) r
      = .opened (r.move (.enter .reachable (fresh i))) := by
    simp only [Recording.host, Recording.enter, Machine.enter_accepted accepted, Answer.fault?]
  rw [Program.run, opened]
  dsimp only
  generalize body.run Recording.host (r.move (.enter .reachable (fresh i))) = ended at recorded ⊢
  obtain ⟨machine, events, outcome⟩ := recorded
  obtain ⟨t, o⟩ := ended
  -- whatever the body ended with, the guard is left and that is the end of the block
  have closed : andThen (Recording.host.leave (.enter (fresh i) true false) o t)
      (Program.done.run Recording.host) = (t.move .leave, o) := by
    cases o <;> rfl
  show Recorded _ r (andThen (Recording.host.leave (.enter (fresh i) true false) o t)
    (Program.done.run Recording.host))
  rw [closed]
  refine ⟨congrArg (fun m => m.leave.machine) machine, ?_, outcome⟩
  show log (t.machine.record .leave :: t.history) = _
  have last : (t.machine.record .leave).result.effect.events
      = inner.machine.leave.effect.events := congrArg (fun m => m.leave.effect.events) machine
  have first : log (r.move (.enter .reachable (fresh i))).history
      = log r.history ++ (r.machine.enter .reachable (fresh i)).effect.events := log_cons _ _
  rw [log_cons, last, events, first]
  simp only [Descent.inside, Effect.andThen, List.append_assoc]

/-- **A recursion is its calls, one inside the other.** The blocks come to the machine that the
recursion comes to, log what it logs, and end as it ends. -/
theorem run_nestedCalls (fresh : Nat → φ) (n : Nat) : ∀ (i : Nat) (r : Recording φ),
    (r.machine.descend fresh i n).Recorded r
      ((nestedCalls fresh i n).run Recording.host r) := by
  induction n with
  | zero =>
      intro i r
      cases hr : r.machine.stack.limit.refusal? r.machine.stack.depth with
      | some max => exact Descent.recorded_refused hr
      | none =>
          rw [Machine.descend_zero hr]
          refine .inside hr ⟨rfl, ?_, rfl⟩
          exact log_cons _ _
  | succ n ih =>
      intro i r
      cases hr : r.machine.stack.limit.refusal? r.machine.stack.depth with
      | some max => exact Descent.recorded_refused hr
      | none =>
          rw [Machine.descend_succ hr]
          exact .inside hr (ih (i + 1) (r.move (.enter .reachable (fresh i))))

/-- **A recursion gets as deep as the limit allows, and comes back.** If all its calls fit under
the limit, it returns the depth that the innermost of them sees. If not, it returns the refusal
of the first that does not fit, and the calls before that one have filled the stack up to the
limit, unless it was full to begin with. Either way the log has the entries, then the refusal if
there is one, and then as many exits, and nothing to warn of; and of every machine the recursion
leaves the frames as they were, and everything else. -/
theorem recursion_comes_back (m : Machine φ) (fresh : Nat → φ) (i n : Nat) :
    let depth := m.stack.depth
    let limit := m.stack.limit.max
    let descent := m.descend fresh i n
    let entered := fun k => (List.range' i k).map fresh
    ((∀ max, limit = some max → depth + n < max) →
      descent.result = .ok (depth + n + 1) ∧
      descent.effect.cloned = entered (n + 1) ∧
      descent.effect.events = pushesFrom depth (n + 1) ++ popsTo depth (n + 1)) ∧
    (∀ max, limit = some max → max ≤ depth + n →
      descent.result = .error (.recursionLimit max) ∧
      descent.effect.cloned = entered (max - depth) ∧
      descent.effect.events = pushesFrom depth (max - depth)
        ++ .refused (depth + (max - depth)) max :: popsTo depth (max - depth)) ∧
    (∀ event ∈ descent.effect.events, event.level = .trace ∨ event.level = .debug) ∧
    descent.machine = m := by
  intro depth limit descent entered
  have room (h : ∀ max, limit = some max → depth + n < max) :
      descent = _ := Machine.descend_of_room (Limit.refusal?_eq_none.mpr h)
  have full (max : Nat) (h : limit = some max) (short : max ≤ depth + n) :
      descent = _ := Machine.descend_of_limit h short rfl
  refine ⟨fun h => ?_, fun max h short => ?_, Machine.level_descend, m.machine_descend fresh i n⟩
  · rw [room h]
    exact ⟨rfl, List.append_nil _, by simp only [thereAndBack, List.append_nil, depth]⟩
  · rw [full max h short]
    exact ⟨rfl, List.append_nil _, by
      simp only [thereAndBack, List.append_assoc, List.cons_append, List.nil_append, depth]⟩

end

/-- Six calls where there is room for two. -/
example :
    let m : Machine Frame := { stack := .ofList { max := some 3 } [.native] }
    (m.descend .numbered 0 5).effect.events
      = [.pushed 2, .pushed 3, .refused 3 3, .popped 2, .popped 1] := by
  cbv

end CallPath
