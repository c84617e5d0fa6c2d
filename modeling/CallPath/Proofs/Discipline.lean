import CallPath.Proofs.Origins
import CallPath.Proofs.Refusals

/-!
# Who is to blame

Some faults are said to be internal: the interpreter lost track of its own pushes and pops. And
an exit that finds the wrong depth is an error in the log. Both blame somebody, so they should
blame nobody who kept to the rules. The rules are few and local (`disciplined`): pop only what
you pushed yourself, swap and write only what is there, and leave the stack as a whole alone.
Nothing is asked of the bodies that are called, which may be refused, panic, leave frames behind
or have their guards forgotten.

What an exit finds above the slot of its guard can be long, and most of it may be the doing of
others: a forgotten body leaves all its frames to its caller. But the lowest of it is always the
doing of the body itself (`OnFloor`), something that it pushed or the slot of a guard that was
forgotten in it. So to look for these two kinds of slots is to find every imbalance, and since
no slot below can be of these kinds, to find nothing else.
-/

namespace CallPath

variable {φ : Type}

/-! ## The rules -/

/-- Whether every pop took a slot that its own body had filled with a push, every swap was made
inside a body or on some frame, every write at a level that is there, and nothing was done to
the stack as a whole. -/
def disciplined (base : Nat) : List (Record φ) → Bool
  | [] => true
  | record :: past =>
      (match record.move with
        | .call .pop => (origins base past).head? = some (.pushed (bodyNumber past))
        | .call (.swap _) => !record.before.guards.isEmpty || 0 < record.before.stack.depth
        | .call (.set level _) => level < record.before.stack.depth
        | .call .clear | .call (.replace _) => false
        | _ => true) && disciplined base past

/-- That the guard of the body `inner` was forgotten directly in the body `body`. -/
def ForgottenIn (past : List (Record φ)) (body inner : Nat) : Prop :=
  ∃ forget earlier, forget :: earlier <:+ past ∧ forget.move = .forget ∧
    bodyNumber (forget :: earlier) = body ∧ bodyNumber earlier = inner

/-- The slots that a body answers for. -/
inductive AnswersFor (past : List (Record φ)) (body : Nat) : Origin → Prop where
  | push : AnswersFor past body (.pushed body)
  | forget {inner : Nat} : ForgottenIn past body inner → AnswersFor past body (.entered inner)

/-- That a slot which a body answers for is on the stack. -/
def LeftOver (base : Nat) (past : List (Record φ)) (body : Nat) : Prop :=
  ∃ origin ∈ origins base past, AnswersFor past body origin

/-- What the innermost body found on the stack, or the whole stack of the beginning if no body is
open. -/
def floor (base : Nat) (past : List (Record φ)) : List Origin :=
  match openings past with
  | [] => List.replicate base .given
  | opening :: _ => .entered (opening.length + 1) :: origins base opening

/-- That the floor of the innermost body is there, and that the slot right above it, if there is
one, is a slot that the body answers for. -/
def OnFloor (base : Nat) (past : List (Record φ)) : Prop :=
  ∃ own, origins base past = own ++ floor base past ∧
    ∀ origin ∈ own.getLast?, AnswersFor past (bodyNumber past) origin

theorem disciplined_of_suffix {base : Nat} {past earlier : List (Record φ)}
    (h : disciplined base past = true) (hs : earlier <:+ past) :
    disciplined base earlier = true :=
  suffix_closed (fun _ _ later => (Bool.and_eq_true_iff.mp later).2) h hs

theorem AnswersFor.later {past earlier : List (Record φ)} {body : Nat} {origin : Origin}
    (h : AnswersFor earlier body origin) (hs : earlier <:+ past) : AnswersFor past body origin := by
  cases h with
  | push => exact .push
  | forget forgotten =>
      obtain ⟨forget, before, here, rest⟩ := forgotten
      exact .forget ⟨forget, before, here.trans hs, rest⟩

variable [Sentinel φ] [DecidableEq φ]

/-! ## Numbers of bodies -/

section

variable {start : Machine φ} {s : Stack φ} {past opening : List (Record φ)}

/-- A body whose guard was forgotten was opened in the body in which that happened, so after
it. -/
theorem ForgottenIn.lt {body inner : Nat} (h : Happened start past)
    (forgotten : ForgottenIn past body inner) : body < inner ∨ body = 0 := by
  obtain ⟨forget, earlier, hs, hmove, rfl, rfl⟩ := forgotten
  have hopenings : openings (forget :: earlier) = (openings earlier).tail := by
    simp only [openings, hmove]
  unfold bodyNumber
  rw [hopenings]
  cases ho : openings earlier with
  | nil => exact .inr rfl
  | cons opening outer =>
      cases outer with
      | nil => exact .inr rfl
      | cons around further =>
          have happened := h.of_suffix ((List.suffix_cons _ _).trans hs)
          have shorter := happened.length_lt_innermost ho List.mem_cons_self
          exact .inl (Nat.succ_lt_succ shorter)

/-! ## The floor of a body -/

omit [Sentinel φ] [DecidableEq φ] in
theorem OnFloor.later {base : Nat} {record : Record φ} (h : OnFloor base past)
    (same : openings (record :: past) = openings past)
    (filled : origins base (record :: past) = origins base past) :
    OnFloor base (record :: past) := by
  obtain ⟨own, split, lowest⟩ := h
  refine ⟨own, ?_, fun origin ho => ?_⟩
  · rw [filled, split, floor, floor, same]
  · rw [bodyNumber, same]
    exact (lowest origin ho).later (List.suffix_cons _ _)

theorem OnFloor.push {base : Nat} {m : Machine φ} (h : OnFloor base past) (frame : φ) :
    OnFloor base (m.record (.call (.push frame)) :: past) := by
  obtain ⟨own, split, lowest⟩ := h
  refine ⟨.pushed (bodyNumber past) :: own, congrArg (_ :: ·) split, fun origin ho => ?_⟩
  rw [List.getLast?_cons] at ho
  cases hl : own.getLast? with
  | none =>
      rw [hl] at ho
      cases ho
      exact .push
  | some last =>
      rw [hl] at ho
      cases ho
      exact (lowest last hl).later (List.suffix_cons _ _)

/-- A pop that keeps to the rules takes nothing from the floor. -/
theorem OnFloor.pop {base : Nat} {m : Machine φ} (h : OnFloor base past)
    (top : (origins base past).head? = some (.pushed (bodyNumber past))) :
    OnFloor base (m.record (.call .pop) :: past) := by
  obtain ⟨own, split, lowest⟩ := h
  cases own with
  | nil =>
      rw [split, List.nil_append, floor] at top
      cases ho : openings past with
      | nil =>
          rw [ho] at top
          have given := List.eq_of_mem_replicate (List.mem_of_mem_head? top)
          cases given
      | cons opening outer => rw [ho] at top; cases top
  | cons first own =>
      refine ⟨own, congrArg List.tail split, fun origin ho => ?_⟩
      exact (lowest origin (List.mem_getLast?_cons ho)).later (List.suffix_cons _ _)

omit [Sentinel φ] [DecidableEq φ] in
/-- An exit of a body on its floor cuts at the floor, whatever the body has left on it. -/
theorem OnFloor.cut {base n : Nat} {outer : List (List (Record φ))} (h : OnFloor base past)
    (innermost : openings past = opening :: outer) (size : (origins base opening).length = n) :
    (origins base past).rtake n = origins base opening := by
  obtain ⟨own, split, -⟩ := h
  have parts : origins base past
      = (own ++ [.entered (opening.length + 1)]) ++ origins base opening := by
    rw [split, floor, innermost, List.append_assoc]
    rfl
  exact rtake_of_append parts size

theorem OnFloor.enter {base : Nat} {m : Machine φ} (h : OnFloor base past) (manner : Manner)
    (frame : φ) : OnFloor base (m.record (.enter manner frame) :: past) := by
  rcases m.enter_cases manner frame with ⟨⟨fault, hf⟩, -⟩ | ⟨hf, -⟩
  · exact h.later (openings_refused hf past) (origins_refused hf base past)
  · refine ⟨[], ?_, nofun⟩
    rw [origins_entered hf, floor, openings_entered hf]
    rfl

/-- After an exit the body around is as it was. -/
theorem OnFloor.leave {base : Nat} {m : Machine φ} {guard : Guard φ} {guards : List (Guard φ)}
    {outer : List (List (Record φ))} (h : OnFloor base past) (around : OnFloor base opening)
    (innermost : openings past = opening :: outer) (nest : openings opening = outer)
    (older : opening <:+ past) (live : m.guards = guard :: guards)
    (size : (origins base opening).length = guard.entryDepth) :
    OnFloor base (m.record .leave :: past) := by
  have same : openings (m.record .leave :: past) = openings opening := by
    rw [nest]
    exact congrArg List.tail innermost
  obtain ⟨own, split, lowest⟩ := around
  refine ⟨own, ?_, fun origin ho => ?_⟩
  · rw [origins_leave live, h.cut innermost size, split, floor, floor, same]
  · rw [bodyNumber, same]
    exact (lowest origin ho).later (older.trans (List.suffix_cons _ _))

/-- A forgotten body leaves all that it has to the body around, its floor among it. If that body
had nothing itself, the slot of the guard is now the lowest that it has. -/
theorem OnFloor.forget {base : Nat} {m : Machine φ} {outer : List (List (Record φ))}
    (h : OnFloor base past) (around : OnFloor base opening)
    (innermost : openings past = opening :: outer) (nest : openings opening = outer)
    (older : opening <:+ past) : OnFloor base (m.record .forget :: past) := by
  have same : openings (m.record .forget :: past) = openings opening := by
    rw [nest]
    exact congrArg List.tail innermost
  obtain ⟨own, split, -⟩ := h
  obtain ⟨below, split', lowest⟩ := around
  have slot : Origin.entered (opening.length + 1) = .entered (bodyNumber past) := by
    rw [bodyNumber, innermost]
  refine ⟨own ++ .entered (bodyNumber past) :: below, ?_, fun origin ho => ?_⟩
  · show origins base past = _
    rw [split, floor, innermost, ← slot, floor, same, List.append_assoc, List.cons_append]
    exact congrArg (own ++ _ :: ·) split'
  · rw [bodyNumber, same]
    rw [List.getLast?_append_cons, List.getLast?_cons] at ho
    cases hl : below.getLast? with
    | none =>
        rw [hl] at ho
        cases ho
        refine .forget ⟨_, past, List.suffix_refl _, rfl, ?_, rfl⟩
        rw [bodyNumber, same]
    | some last =>
        rw [hl] at ho
        cases ho
        exact (lowest last hl).later (older.trans (List.suffix_cons _ _))

/-- **A body that keeps to the rules is on its floor,** and so are those around it. -/
theorem Happened.on_floor (h : Happened { stack := s } past)
    (rules : disciplined s.depth past = true) :
    ∀ earlier, earlier <:+ past → OnFloor s.depth earlier := by
  -- the exit and the forgotten guard go back to the body around, so to an older history
  induction h with
  | nil =>
      intro earlier hs
      rw [List.suffix_nil.mp hs]
      exact ⟨[], rfl, nofun⟩
  | @move past mv happened ih =>
      obtain ⟨rule, rules⟩ := Bool.and_eq_true_iff.mp rules
      have before := ih rules
      have here := before past (List.suffix_refl _)
      have outside : openings past = [] → (openings past).tail = openings past := by
        intro none_open
        rw [none_open]
        rfl
      intro earlier hs
      rcases List.suffix_cons_iff.mp hs with rfl | hs
      case inr => exact before earlier hs
      case inl =>
      cases mv with
      | call c =>
          cases c with
          | push frame => exact here.push frame
          | pop => exact here.pop (of_decide_eq_true rule)
          | clear => cases rule
          | replace next => cases rule
          | _ => exact here.later rfl rfl
      | enter manner frame => exact here.enter manner frame
      | leave =>
          cases hg : (now { stack := s } past).guards with
          | nil =>
              have depths := happened.entryDepths rfl
              rw [hg] at depths
              have none_open := List.map_eq_nil_iff.mp depths.symm
              exact here.later (outside none_open) (origins_leave_of_nil hg _ _)
          | cons guard guards =>
              obtain ⟨opening, outer, innermost, size⟩ := happened.innermost_opening rfl hg
              have older := (happened.suffix_of_opening (innermost ▸ List.mem_cons_self)).1
              have nest := happened.openings_of_innermost innermost
              exact here.leave (before opening older) innermost nest older hg
                ((happened.of_suffix older).length_origins.trans size.symm)
      | forget =>
          cases ho : openings past with
          | nil => exact here.later (outside ho) rfl
          | cons opening outer =>
              have older := (happened.suffix_of_opening (ho ▸ List.mem_cons_self)).1
              have nest := happened.openings_of_innermost ho
              exact here.forget (before opening older) ho nest older

/-- **What is left over is what is too much.** If a body that keeps to the rules ends, the stack
has just one frame more than there was when the body was entered, unless there is a slot on it
that this very body answers for. -/
theorem Happened.leftOver_iff {outer : List (List (Record φ))} (h : Happened { stack := s } past)
    (rules : disciplined s.depth past = true) (innermost : openings past = opening :: outer) :
    LeftOver s.depth past (bodyNumber past) ↔
      (now { stack := s } past).stack.depth ≠ (now { stack := s } opening).stack.depth + 1 := by
  obtain ⟨own, split, lowest⟩ := h.on_floor rules past (List.suffix_refl _)
  have before := h.of_opening (innermost ▸ List.mem_cons_self)
  have number : bodyNumber past = opening.length + 1 := by rw [bodyNumber, innermost]
  rw [floor, innermost] at split
  have depth : (now { stack := s } past).stack.depth
      = own.length + (now { stack := s } opening).stack.depth + 1 := by
    rw [← h.length_origins, ← before.length_origins, split, List.length_append, List.length_cons]
    omega
  constructor
  · rintro ⟨origin, there, answers⟩ balanced
    have nothing : own = [] := List.length_eq_zero_iff.mp (by omega)
    rw [split, nothing, List.nil_append] at there
    -- a slot that the body answers for is younger than all that it found
    have younger : ∀ older ∈ origins s.depth opening, older.number ≤ opening.length :=
      before.number_le s.depth
    rw [number] at answers
    cases answers with
    | push =>
        rcases List.mem_cons.mp there with same | there
        · cases same
        · exact Nat.not_succ_le_self _ (younger _ there)
    | @forget inner forgotten =>
        have inside : opening.length + 1 < inner :=
          (forgotten.lt h).resolve_right (Nat.succ_ne_zero _)
        rcases List.mem_cons.mp there with same | there
        · cases same
          exact Nat.lt_irrefl _ inside
        · have old := younger _ there
          dsimp only [Origin.number] at old
          omega
  · intro unbalanced
    cases hl : own.getLast? with
    | none =>
        rw [List.getLast?_eq_none_iff.mp hl, List.length_nil] at depth
        omega
    | some last =>
        refine ⟨last, ?_, lowest last hl⟩
        rw [split]
        exact List.mem_append_left _ (List.mem_of_getLast? hl)

/-! ## Who is blamed -/

/-- Nothing internal stands in the way of a move that keeps to the rules. -/
theorem Happened.obstacle_of_rules (h : Happened { stack := s } past) {mv : Move φ}
    (rules : disciplined s.depth ((now { stack := s } past).record mv :: past) = true)
    {fault : Fault} (obstacle : (now { stack := s } past).obstacle? mv = some fault) :
    ∃ max, fault = .recursionLimit max := by
  obtain ⟨rule, earlier⟩ := Bool.and_eq_true_iff.mp rules
  have size := h.length_origins
  cases mv with
  | call c =>
      cases c with
      | pop =>
          obtain ⟨empty, -⟩ := Option.ite_none_right_eq_some.mp obstacle
          have top := of_decide_eq_true rule
          rw [empty] at size
          rw [List.length_eq_zero_iff.mp size] at top
          cases top
      | swap frame =>
          obtain ⟨empty, -⟩ := Option.ite_none_right_eq_some.mp obstacle
          rcases Bool.or_eq_true_iff.mp rule with inside | filled
          · have live : (now { stack := s } past).guards ≠ [] := by
              intro hg
              rw [Machine.record, hg] at inside
              cases inside
            obtain ⟨guard, guards, hg⟩ := List.exists_cons_of_ne_nil live
            obtain ⟨opening, outer, innermost, -⟩ := h.innermost_opening rfl hg
            obtain ⟨own, split, -⟩ := h.on_floor earlier past (List.suffix_refl _)
            rw [List.length_eq_zero_iff.mp (size.trans empty), floor, innermost] at split
            exact absurd split.symm (List.append_ne_nil_of_right_ne_nil _ (List.cons_ne_nil _ _))
          · exact absurd empty (Nat.ne_of_gt (of_decide_eq_true filled))
      | set level frame =>
          obtain ⟨outside, -⟩ := Option.ite_none_right_eq_some.mp obstacle
          exact absurd outside (Nat.not_le_of_lt (of_decide_eq_true rule))
      | _ => cases obstacle
  | enter manner frame =>
      rw [Machine.obstacle?, ← Limit.refusal?_eq_bind] at obstacle
      obtain ⟨max, -, rfl⟩ := Option.map_eq_some_iff.mp obstacle
      exact ⟨max, rfl⟩
  | leave => cases obstacle
  | forget => cases obstacle

omit [Sentinel φ] [DecidableEq φ] in
theorem error_mem_exitEvents {depth entry : Nat} :
    (∃ event ∈ exitEvents depth entry, event.level = .error) ↔ depth ≠ entry + 1 := by
  unfold exitEvents
  by_cases balanced : depth = entry + 1
  · simp [balanced, Event.level]
  · simp [balanced, Event.level]

/-- An exit reports an error exactly if it finds a slot that its body answers for. -/
theorem Happened.exit_blames (h : Happened { stack := s } past)
    (rules : disciplined s.depth past = true)
    (live : (now { stack := s } past).guards ≠ []) :
    (∃ event ∈ (now { stack := s } past).leave.effect.events, event.level = .error) ↔
      LeftOver s.depth past (bodyNumber past) := by
  obtain ⟨guard, guards, hg⟩ := List.exists_cons_of_ne_nil live
  obtain ⟨opening, outer, innermost, entry⟩ := h.innermost_opening rfl hg
  rw [h.leftOver_iff rules innermost, ← entry, Machine.leave_of_cons hg]
  show (∃ event ∈ (Machine.release _ guard).2.events, event.level = .error) ↔ _
  rw [Machine.events_release, error_mem_exitEvents]

end

/-- **Blame.** Take any run in which every body, and what runs outside all bodies, pops only
slots that it filled with pushes of its own, swaps and writes only what is there, and neither
clears nor replaces the stack. Bodies may be refused, fail, panic, leave frames behind and have
their guards forgotten. Then no call ever fails but for the limit, which is not an internal
fault, and the log has no warnings. And an exit is reported as an error exactly if a slot is
still on the stack, at the end of the body, that was filled by a push of this body or by an
entry whose guard was forgotten directly in it. -/
theorem disciplined_is_blameless (s : Stack φ) (p : Program (Act φ) (Block φ))
    (rules : disciplined s.depth (({ stack := s } : Machine φ).run p).1.history = true) :
    let history := (({ stack := s } : Machine φ).run p).1.history
    (∀ record ∈ history, ∀ fault, record.result.answer.fault? = some fault →
      fault.isInternal = false ∧ ∃ max, fault = .recursionLimit max) ∧
    (∀ event ∈ log history, event.level ≠ .warn) ∧
    ∀ exit earlier, exit :: earlier <:+ history → exit.move = .leave →
      exit.before.guards ≠ [] →
      ((∃ event ∈ exit.result.effect.events, event.level = .error) ↔
        LeftOver s.depth earlier (bodyNumber earlier)) := by
  intro history
  have happened : Happened { stack := s } history := (run_keeps_history _ p).happened
  have faults : ∀ record ∈ history, ∀ fault, record.result.answer.fault? = some fault →
      fault.isInternal = false ∧ ∃ max, fault = .recursionLimit max := by
    intro record hr fault hf
    obtain ⟨earlier, hs, same⟩ := happened.of_mem hr
    rw [same] at hs hf
    have before := happened.of_suffix ((List.suffix_cons _ _).trans hs)
    have obstacle := (Machine.fault?_step _ _).symm.trans hf
    obtain ⟨max, rfl⟩ := before.obstacle_of_rules (disciplined_of_suffix rules hs) obstacle
    exact ⟨rfl, max, rfl⟩
  refine ⟨faults, ?_, ?_⟩
  · have warnings := happened.countP_log (.inl rfl : Level.warn = .warn ∨ _)
    simp only [Record.any_fault_warn] at warnings
    have quiet : ∀ record ∈ history,
        ¬ record.result.answer.fault?.any Fault.isInternal = true := by
      intro record hr internal
      obtain ⟨fault, hf, internal⟩ := (Option.any_eq_true _ _).mp internal
      rw [(faults record hr fault hf).1] at internal
      cases internal
    rw [List.countP_eq_zero.mpr quiet, List.countP_eq_zero] at warnings
    exact fun event he same => warnings event he (decide_eq_true same)
  · intro exit earlier hs hleave live
    obtain ⟨hearlier, hexit⟩ := happened.record_at hs hleave
    rw [hexit] at live ⊢
    exact (happened.of_suffix hearlier).exit_blames (disciplined_of_suffix rules hearlier) live

/-- A body that is called leaves a frame behind when it panics, and another one when its guard is
forgotten. The caller is refused an entry then, and keeps to the rules all the time. -/
def abused : Program (Act Frame) (Block Frame) :=
  .block (.enter (.numbered 1) true false)
    (.act (.call (.push (.numbered 2))) <|
      .block .attempt
        (.block (.enterHidden (.numbered 3) true)
          (.act (.call (.push (.numbered 4))) <|
            .act (.call (.swap (.numbered 5))) <|
            .act (.panic "lost") .done)
          .done) <|
      .act (.call .pop) <|
      .block (.enter (.numbered 6) true true) (.act (.call (.push (.numbered 7))) .done) <|
      .block (.enterHidden (.numbered 8) false) .done <|
      .act (.call (.set 1 (.numbered 9))) .done)
    .done

/-- One frame is there in the beginning, and there may be four. -/
def shallow : Stack Frame := .ofList { max := some 4 } [.numbered 0]

/-- What happens then. -/
def abuse : List (Record Frame) := (({ stack := shallow } : Machine Frame).run abused).1.history

theorem blameless_of_abused :
    disciplined shallow.depth abuse = true ∧ (∀ event ∈ log abuse, event.level ≠ .warn) ∧
      (log abuse).filter (fun event => event.level ≠ .trace)
        = [.unbalanced 5 4, .refused 4 4, .unbalanced 4 2] ∧
      LeftOver shallow.depth abuse.tail (bodyNumber abuse.tail) := by
  have rules : disciplined shallow.depth abuse = true := by decide
  obtain ⟨-, quiet, blames⟩ := disciplined_is_blameless shallow abused rules
  have exit : abuse.head (by decide) :: abuse.tail <:+ abuse := ⟨[], List.cons_head_tail _⟩
  have live : (abuse.head (by decide)).before.guards ≠ [] := by decide
  have blamed : .unbalanced 4 2 ∈ (abuse.head (by decide)).result.effect.events := by decide
  exact ⟨rules, quiet, by decide, (blames _ _ exit rfl live).mp ⟨_, blamed, rfl⟩⟩

end CallPath
