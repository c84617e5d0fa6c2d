import Mathlib.Data.List.DropRight
import CallPath.Proofs.History

/-!
# Where the slots come from

A slot of the stack holds a frame and no more, and after a swap or a write it holds another one.
Where the slot itself came from is for the history to tell (`origins`): it came with a whole
stack, or it was pushed in some body, or an entry filled it. For that the bodies have numbers,
and no two bodies of a history have the same.

A move reaches the slots from above only (`Machine.origins_record`). It takes some of them off
the top, or puts one on top, or puts a whole stack in the place of this one. So a slot has the
same origin for as long as it is there, every slot has one (`Happened.length_origins`), and none
comes from a body that was not opened yet (`Happened.number_le`).
-/

namespace CallPath

variable {φ : Type}

/-- How a slot was filled. -/
inductive Origin where
  /-- It came with the whole stack. -/
  | given
  /-- It was pushed in the body with that number. -/
  | pushed (body : Nat)
  /-- It was filled by the entry that opened the body with that number. -/
  | entered (body : Nat)
  deriving DecidableEq

/-- The number of the body that an origin speaks of. -/
def Origin.number : Origin → Nat
  | given => 0
  | pushed body | entered body => body

/-- The number of the innermost open body. It is 0 outside all bodies, and no two bodies of
a history have the same. -/
def bodyNumber (past : List (Record φ)) : Nat :=
  match openings past with
  | [] => 0
  | opening :: _ => opening.length + 1

/-- How the slots were filled, the top first, if there were `base` of them in the beginning. -/
def origins (base : Nat) : List (Record φ) → List Origin
  | [] => List.replicate base .given
  | record :: past =>
      match record.move, record.result.answer.fault?, record.before.guards with
      | .call (.push _), _, _ => .pushed (bodyNumber past) :: origins base past
      | .call .pop, _, _ => (origins base past).tail
      | .call .clear, _, _ => []
      | .call (.replace next), _, _ => List.replicate next.depth .given
      | .enter _ _, none, _ => .entered (past.length + 1) :: origins base past
      | .leave, _, guard :: _ => (origins base past).rtake guard.entryDepth
      | _, _, _ => origins base past

theorem rtake_of_append {α : Type} {l above below : List α} {n : Nat} (split : l = above ++ below)
    (size : below.length = n) : l.rtake n = below := by
  rw [split, ← size, List.rtake, List.length_append, Nat.add_sub_cancel, List.drop_left]

variable [Sentinel φ] [DecidableEq φ]

/-! ## What a move does to the slots -/

section

variable {m : Machine φ}

theorem origins_entered {manner : Manner} {frame : φ}
    (h : (m.enter manner frame).answer.fault? = none) (base : Nat) (past : List (Record φ)) :
    origins base (m.record (.enter manner frame) :: past)
      = .entered (past.length + 1) :: origins base past := by
  simp only [origins, Machine.record, Machine.step, h]

theorem origins_refused {manner : Manner} {frame : φ} {fault : Fault}
    (h : (m.enter manner frame).answer.fault? = some fault) (base : Nat)
    (past : List (Record φ)) :
    origins base (m.record (.enter manner frame) :: past) = origins base past := by
  simp only [origins, Machine.record, Machine.step, h]

theorem origins_leave {guard : Guard φ} {guards : List (Guard φ)}
    (h : m.guards = guard :: guards) (base : Nat) (past : List (Record φ)) :
    origins base (m.record .leave :: past) = (origins base past).rtake guard.entryDepth := by
  simp only [origins, Machine.record, h]

theorem origins_leave_of_nil (h : m.guards = []) (base : Nat) (past : List (Record φ)) :
    origins base (m.record .leave :: past) = origins base past := by
  simp only [origins, Machine.record, h]

end

/-- A move takes slots off the top, or puts a whole stack in the place of this one, or fills a
slot with a push in the innermost body. An entry that is accepted fills one, too, and it alone
opens a body. -/
theorem Machine.origins_record (m : Machine φ) (mv : Move φ) (base : Nat)
    (past : List (Record φ)) :
    (openings (m.record mv :: past) <:+ openings past ∧
      ((∃ k, origins base (m.record mv :: past) = (origins base past).drop k) ∨
        (∃ next, mv = .call (.replace next) ∧
          origins base (m.record mv :: past) = List.replicate next.depth .given) ∨
        origins base (m.record mv :: past) = .pushed (bodyNumber past) :: origins base past)) ∨
    (openings (m.record mv :: past) = past :: openings past ∧
      origins base (m.record mv :: past) = .entered (past.length + 1) :: origins base past) := by
  have same : origins base past = (origins base past).drop 0 := rfl
  cases mv with
  | call c =>
      refine .inl ⟨List.suffix_refl _, ?_⟩
      cases c with
      | push frame => exact .inr (.inr rfl)
      | pop => exact .inl ⟨1, List.drop_one.symm⟩
      | clear => exact .inl ⟨_, List.drop_length.symm⟩
      | replace next => exact .inr (.inl ⟨next, rfl, rfl⟩)
      | _ => exact .inl ⟨0, same⟩
  | enter manner frame =>
      rcases m.enter_cases manner frame with ⟨⟨fault, hf⟩, -⟩ | ⟨hf, -⟩
      · rw [openings_refused hf, origins_refused hf]
        exact .inl ⟨List.suffix_refl _, .inl ⟨0, same⟩⟩
      · exact .inr ⟨openings_entered hf past, origins_entered hf base past⟩
  | leave =>
      refine .inl ⟨List.tail_suffix _, .inl ?_⟩
      cases hg : m.guards with
      | nil =>
          rw [origins_leave_of_nil hg]
          exact ⟨0, same⟩
      | cons guard guards =>
          rw [origins_leave hg]
          exact ⟨_, rfl⟩
  | forget => exact .inl ⟨List.tail_suffix _, .inl ⟨0, same⟩⟩

/-- A move that leaves a stack whose slots are accounted for leaves one of which that is true,
too. -/
theorem Machine.length_origins {m : Machine φ} {base : Nat} {past : List (Record φ)}
    (h : (origins base past).length = m.stack.depth) (mv : Move φ) :
    (origins base (m.record mv :: past)).length = (m.step mv).machine.stack.depth := by
  cases mv with
  | call c =>
      show _ = (m.stack.call c).stack.depth
      cases c with
      | push frame => exact (congrArg (· + 1) h).trans (m.stack.depth_push frame).symm
      | pop =>
          rw [Stack.depth_call_pop, ← h]
          exact List.length_tail
      | swap frame => exact h.trans (m.stack.depth_call_swap frame).symm
      | set level frame => exact h.trans (m.stack.depth_call_set level frame).symm
      | clear => rfl
      | replace next => exact List.length_replicate
      | _ => exact h
  | enter manner frame =>
      show _ = (m.enter manner frame).machine.stack.depth
      rcases m.enter_cases manner frame with ⟨⟨fault, hf⟩, hm⟩ | ⟨hf, hm⟩
      · rw [hm, origins_refused hf, h]
      · rw [hm, origins_entered hf, List.length_cons, h]
        exact (m.stack.depth_push frame).symm
  | leave =>
      show _ = m.leave.machine.stack.depth
      cases hg : m.guards with
      | nil => rw [leave_of_nil hg, origins_leave_of_nil hg, h]
      | cons guard guards =>
          rw [origins_leave hg, stack_leave hg, depth_release, List.rtake, List.length_drop, h]
          omega
  | forget =>
      obtain ⟨stack, guards, forgotten⟩ := m
      cases guards <;> exact h

/-! ## Whole histories -/

section

variable {start : Machine φ} {s : Stack φ} {past opening : List (Record φ)} {base : Nat}

/-- Every slot has an origin, whatever was done to the stack. -/
theorem Happened.length_origins (h : Happened { stack := s } past) :
    (origins s.depth past).length = (now { stack := s } past).stack.depth := by
  induction h with
  | nil => exact List.length_replicate
  | move mv _ ih => exact Machine.length_origins ih mv

theorem Happened.bodyNumber_le (h : Happened start past) : bodyNumber past ≤ past.length := by
  unfold bodyNumber
  cases ho : openings past with
  | nil => exact Nat.zero_le _
  | cons opening outer =>
      exact (h.suffix_of_opening (ho ▸ List.mem_cons_self)).2

/-- No body that is open was opened after the innermost one. -/
theorem Happened.length_lt_bodyNumber (h : Happened start past) (ho : opening ∈ openings past) :
    opening.length < bodyNumber past := by
  unfold bodyNumber
  cases innermost : openings past with
  | nil => rw [innermost] at ho; cases ho
  | cons inner outer =>
      rw [innermost] at ho
      rcases List.mem_cons.mp ho with rfl | older
      · exact Nat.lt_succ_self _
      · exact Nat.lt_succ_of_lt (h.length_lt_innermost innermost older)

/-- No slot comes from a body that was not opened yet. -/
theorem Happened.number_le (h : Happened start past) (base : Nat) :
    ∀ origin ∈ origins base past, origin.number ≤ past.length := by
  have given : ∀ n, ∀ origin ∈ List.replicate n Origin.given, origin.number = 0 := by
    intro n origin there
    rw [List.eq_of_mem_replicate there]
    rfl
  induction h with
  | nil => exact fun origin there => Nat.le_of_eq (given base origin there)
  | @move past mv happened ih =>
      have older : ∀ origin ∈ origins base past, origin.number ≤ past.length + 1 :=
        fun origin there => Nat.le_succ_of_le (ih origin there)
      intro origin there
      rcases (now start past).origins_record mv base past with
        ⟨-, ⟨k, dropped⟩ | ⟨next, -, replaced⟩ | pushed⟩ | ⟨-, filled⟩
      · rw [dropped] at there
        exact older origin (List.mem_of_mem_drop there)
      · rw [replaced] at there
        exact (given next.depth origin there).trans_le (Nat.zero_le _)
      · rw [pushed] at there
        rcases List.mem_cons.mp there with rfl | there
        · exact Nat.le_succ_of_le happened.bodyNumber_le
        · exact older origin there
      · rw [filled] at there
        rcases List.mem_cons.mp there with rfl | there
        · exact Nat.le_refl _
        · exact older origin there

/-- The slot of an entry is not there before the entry. -/
theorem Happened.entered_notMem (h : Happened start opening) :
    .entered (opening.length + 1) ∉ origins base opening :=
  fun there => Nat.not_succ_le_self _ (h.number_le base _ there)

end

end CallPath
