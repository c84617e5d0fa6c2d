import CallPath.Proofs.Discipline

/-!
# What an exit does not see

An exit is to report two things: that the frame of its guard was taken off the stack, and that
frames which were pushed inside are still there. But it counts only. Where a frame is taken off
and another one is pushed in its place, one thing makes up for the other, and the exit pops the
stranger and says nothing.

This is the only thing that an exit does not see (`Happened.reports_iff`). What comes off the
stack comes off the top, and what goes on it goes on top. So at any time the stack of a body is
in two layers (`Happened.layered`): slots that were filled inside, and below them what is left
of the slots that were there when the body began, its own among them. The slot of the guard is
the topmost of those, and as long as it is there all of them are. Once it is gone it never comes
back, because no two entries have one number (`Happened.gone`).
-/

namespace CallPath

variable {φ : Type}

/-- A slot was filled inside the body that was entered after `opening`, and not by its entry. -/
def FilledInside (opening : List (Record φ)) (origin : Origin) : Prop :=
  opening.length + 1 ≤ origin.number ∧ origin ≠ .entered (opening.length + 1)

/-- That the slot of the frame which was entered after `opening` was missing at some time
since. -/
def TakenOff (base : Nat) (past opening : List (Record φ)) : Prop :=
  ∃ mid, mid <:+ past ∧ opening.length < mid.length ∧
    .entered (opening.length + 1) ∉ origins base mid

/-- That a slot is still there which was filled inside. -/
def LeftInside (base : Nat) (past opening : List (Record φ)) : Prop :=
  ∃ origin ∈ origins base past, FilledInside opening origin

/-- That another stack was put in the place of this one. -/
def Replaced (past : List (Record φ)) : Prop :=
  ∃ record ∈ past, ∃ next, record.move = .call (.replace next)

/-- That slots are in two layers: some that were filled inside, on the lowest of those that were
there when the body was entered, the one of its own frame on top of them. Of a stack that was
replaced nothing is left, and all that came in its place is in the upper layer. -/
def Layered (base : Nat) (past : List (Record φ)) (slots : List Origin)
    (opening : List (Record φ)) : Prop :=
  ∃ own below, slots = own ++ below ∧
    below <:+ .entered (opening.length + 1) :: origins base opening ∧
    ∀ origin ∈ own,
      FilledInside opening origin ∨ (origin = .given ∧ below = [] ∧ Replaced past)

variable [Sentinel φ] [DecidableEq φ]

/-! ## The layers of a body -/

section

variable {start : Machine φ} {s : Stack φ} {past opening : List (Record φ)} {base : Nat}

omit [Sentinel φ] [DecidableEq φ] in
/-- What comes off the top comes off the upper layer first. -/
theorem Layered.drop {slots : List Origin} {record : Record φ}
    (h : Layered base past slots opening) (k : Nat) :
    Layered base (record :: past) (slots.drop k) opening := by
  obtain ⟨own, below, rfl, lower, upper⟩ := h
  refine ⟨own.drop k, below.drop (k - own.length), List.drop_append,
    (List.drop_suffix _ _).trans lower, fun origin ho => ?_⟩
  refine (upper origin (List.mem_of_mem_drop ho)).imp_right ?_
  rintro ⟨given, rfl, other, hr, replaced⟩
  exact ⟨given, List.drop_nil, other, List.mem_cons_of_mem _ hr, replaced⟩

omit [Sentinel φ] [DecidableEq φ] in
/-- What goes on top goes on the upper layer. -/
theorem Layered.cons {slots : List Origin} {record : Record φ} {origin : Origin}
    (h : Layered base past slots opening) (inside : FilledInside opening origin) :
    Layered base (record :: past) (origin :: slots) opening := by
  obtain ⟨own, below, rfl, lower, upper⟩ := h
  refine ⟨origin :: own, below, rfl, lower, List.forall_mem_cons.mpr ⟨.inl inside, ?_⟩⟩
  intro older ho
  refine (upper older ho).imp_right ?_
  rintro ⟨given, empty, other, hr, replaced⟩
  exact ⟨given, empty, other, List.mem_cons_of_mem _ hr, replaced⟩

/-- **The stack of an open body is in two layers.** -/
theorem Happened.layered (h : Happened { stack := s } past) :
    ∀ opening ∈ openings past, Layered s.depth past (origins s.depth past) opening := by
  induction h with
  | nil => exact fun _ ho => absurd ho List.not_mem_nil
  | @move past mv happened ih =>
      intro opening ho
      rcases (now { stack := s } past).origins_record mv s.depth past with
        ⟨older, ⟨k, dropped⟩ | ⟨next, replace, replaced⟩ | pushed⟩ | ⟨opened, filled⟩
      · rw [dropped]
        exact (ih opening (older.subset ho)).drop k
      · -- nothing of the lower layer survives, and it never comes back
        rw [replaced]
        refine ⟨_, [], (List.append_nil _).symm, List.nil_suffix, fun origin there => .inr ?_⟩
        exact ⟨List.eq_of_mem_replicate there, rfl, _, List.mem_cons_self, next, replace⟩
      · rw [pushed]
        have number := happened.length_lt_bodyNumber (older.subset ho)
        exact (ih opening (older.subset ho)).cons ⟨number, nofun⟩
      · rw [opened] at ho
        rw [filled]
        -- the body that is opened begins with the lower layer alone, and for those around it
        -- its slot is one that was filled inside
        rcases List.mem_cons.mp ho with rfl | before
        · exact ⟨[], _, rfl, List.suffix_refl _, nofun⟩
        · have shorter := (happened.suffix_of_opening before).2
          have other : Origin.entered (past.length + 1) ≠ .entered (opening.length + 1) :=
            fun same => Nat.ne_of_gt shorter (Nat.succ.inj (Origin.entered.inj same))
          exact (ih opening before).cons ⟨Nat.succ_le_succ shorter.le, other⟩

/-- **What was taken off stays off.** -/
theorem Happened.gone (h : Happened start past) {mid : List (Record φ)} (hs : mid <:+ past)
    (entered : opening.length < mid.length)
    (missing : .entered (opening.length + 1) ∉ origins base mid) :
    .entered (opening.length + 1) ∉ origins base past := by
  induction h with
  | nil => rwa [← List.suffix_nil.mp hs]
  | @move past mv happened ih =>
      rcases List.suffix_cons_iff.mp hs with rfl | hs
      · exact missing
      intro there
      have before := ih hs
      rcases (now start past).origins_record mv base past with
        ⟨-, ⟨k, dropped⟩ | ⟨next, -, replaced⟩ | pushed⟩ | ⟨-, filled⟩
      · exact before (List.mem_of_mem_drop (dropped ▸ there))
      · rw [replaced] at there
        cases List.eq_of_mem_replicate there
      · rw [pushed] at there
        exact before ((List.mem_cons.mp there).resolve_left nofun)
      · rw [filled] at there
        rcases List.mem_cons.mp there with same | there
        · -- an entry as late as this has a greater number
          have number := Nat.succ.inj (Origin.entered.inj same)
          have longer := hs.length_le
          omega
        · exact before there

theorem Happened.takenOff_iff (h : Happened start past) (ho : opening ∈ openings past) :
    TakenOff base past opening ↔ .entered (opening.length + 1) ∉ origins base past := by
  constructor
  · rintro ⟨mid, hs, entered, missing⟩
    exact h.gone hs entered missing
  · exact fun missing => ⟨past, List.suffix_refl _, (h.suffix_of_opening ho).2, missing⟩

/-! ## What an exit reports -/

/-- As long as the slot of a guard is there, everything below it is, and nothing is above it but
what was filled inside. -/
theorem Happened.standing (h : Happened { stack := s } past) (ho : opening ∈ openings past)
    (there : .entered (opening.length + 1) ∈ origins s.depth past) :
    ∃ own, origins s.depth past
        = own ++ .entered (opening.length + 1) :: origins s.depth opening ∧
      ∀ origin ∈ own, FilledInside opening origin := by
  have before := h.of_opening ho
  obtain ⟨own, below, split, lower, upper⟩ := h.layered opening ho
  have slot : .entered (opening.length + 1) ∈ below := by
    rw [split] at there
    refine (List.mem_append.mp there).resolve_left (fun inside => ?_)
    rcases upper _ inside with filled | ⟨given, -⟩
    · exact filled.2 rfl
    · cases given
  have whole : below = .entered (opening.length + 1) :: origins s.depth opening :=
    (List.suffix_cons_iff.mp lower).resolve_right
      (fun deeper => before.entered_notMem (deeper.subset slot))
  refine ⟨own, split.trans (congrArg (own ++ ·) whole), fun origin hown => ?_⟩
  refine (upper origin hown).resolve_right (fun replaced => ?_)
  rw [replaced.2.1] at slot
  cases slot

/-- As long as it is there, the stack is one frame deeper than it was exactly if nothing is left
over. -/
theorem Happened.leftInside_iff (h : Happened { stack := s } past) (ho : opening ∈ openings past)
    (there : .entered (opening.length + 1) ∈ origins s.depth past) :
    LeftInside s.depth past opening ↔
      (now { stack := s } past).stack.depth ≠ (now { stack := s } opening).stack.depth + 1 := by
  have before := h.of_opening ho
  obtain ⟨own, split, inside⟩ := h.standing ho there
  have depth : (now { stack := s } past).stack.depth
      = own.length + ((now { stack := s } opening).stack.depth + 1) := by
    rw [← h.length_origins, ← before.length_origins, split, List.length_append, List.length_cons]
  constructor
  · rintro ⟨origin, there, young, other⟩ balanced
    have nothing : own = [] := List.length_eq_zero_iff.mp (by omega)
    rw [split, nothing] at there
    rcases List.mem_cons.mp there with same | below
    · exact other same
    · exact Nat.not_le_of_lt young (before.number_le s.depth origin below)
  · intro unbalanced
    cases own with
    | nil => exact absurd (depth.trans (Nat.zero_add _)) unbalanced
    | cons first own =>
        exact ⟨first, split ▸ List.mem_cons_self, inside first List.mem_cons_self⟩

/-- If it is gone and the depth is right, something that was filled inside is in its place. -/
theorem Happened.leftInside_of_gone (h : Happened { stack := s } past)
    (ho : opening ∈ openings past) (unreplaced : ¬ Replaced past)
    (gone : .entered (opening.length + 1) ∉ origins s.depth past)
    (right : (now { stack := s } past).stack.depth
      = (now { stack := s } opening).stack.depth + 1) : LeftInside s.depth past opening := by
  have before := h.of_opening ho
  obtain ⟨own, below, split, lower, upper⟩ := h.layered opening ho
  have deeper : below <:+ origins s.depth opening := by
    refine (List.suffix_cons_iff.mp lower).resolve_left (fun whole => gone ?_)
    rw [split, whole]
    exact List.mem_append_right _ List.mem_cons_self
  have few := deeper.length_le
  rw [before.length_origins] at few
  cases own with
  | nil =>
      rw [← h.length_origins, split, List.nil_append] at right
      omega
  | cons first own =>
      exact ⟨first, split ▸ List.mem_cons_self,
        (upper first List.mem_cons_self).resolve_right (fun other => unreplaced other.2.2)⟩

theorem Happened.events_leave (h : Happened { stack := s } past) {outer : List (List (Record φ))}
    (innermost : openings past = opening :: outer) :
    ((now { stack := s } past).record .leave).result.effect.events
      = exitEvents (now { stack := s } past).stack.depth
          (now { stack := s } opening).stack.depth := by
  have depths := h.entryDepths rfl
  rw [innermost, List.map_cons] at depths
  obtain ⟨guard, guards, live, entry, -⟩ := List.map_eq_cons_iff.mp depths
  show (now { stack := s } past).leave.effect.events = _
  rw [Machine.leave_of_cons live, Machine.events_release, entry]

/-- **One wrong makes up for the other, and only then.** An exit finds the wrong depth exactly if
the frame of its guard was taken off or something is left over, but for the one case that the
frame was taken off and the depth is right all the same. -/
theorem Happened.reports_iff (h : Happened { stack := s } past) (ho : opening ∈ openings past) :
    let depth := (now { stack := s } past).stack.depth
    let entry := (now { stack := s } opening).stack.depth
    let taken := TakenOff s.depth past opening
    depth ≠ entry + 1 ↔
      (taken ∨ LeftInside s.depth past opening) ∧ ¬ (taken ∧ depth = entry + 1) := by
  intro depth entry taken
  by_cases off : taken
  · exact ⟨fun wrong => ⟨.inl off, fun both => wrong both.2⟩, fun seen right => seen.2 ⟨off, right⟩⟩
  · have there := Decidable.not_not.mp ((h.takenOff_iff ho).not.mp off)
    have left := h.leftInside_iff ho there
    constructor
    · exact fun wrong => ⟨.inr (left.mpr wrong), fun both => off both.1⟩
    · exact fun seen => left.mp (seen.1.resolve_left off)

end

/-- **What an exit does not see.** Take any run, whatever its bodies do to the stack and however
they end, and any exit in it. If the frame of the guard was never off the stack, the exit reports
an error exactly if something that was pushed inside is still there. If the frame was off, it
never came back, and the exit reports an error unless the depth happens to be right. Then what it
pops is something else, which was pushed inside unless the stack as a whole was replaced, and the
log has a pop and nothing more. -/
theorem exits_see_all_but_exchanges (s : Stack φ) (p : Program (Act φ) (Block φ)) :
    let history := (({ stack := s } : Machine φ).run p).1.history
    ∀ exit past, exit :: past <:+ history → exit.move = .leave →
      ∀ opening outer, openings past = opening :: outer →
        let depth := (now { stack := s } past).stack.depth
        let entry := (now { stack := s } opening).stack.depth
        let taken := TakenOff s.depth past opening
        let events := exit.result.effect.events
        (.unbalanced depth (entry + 1) ∈ events ↔
          (taken ∨ LeftInside s.depth past opening) ∧ ¬ (taken ∧ depth = entry + 1)) ∧
        (.unbalanced depth (entry + 1) ∉ events → events = [.popped entry]) ∧
        (taken → .entered (opening.length + 1) ∉ origins s.depth past) ∧
        (taken → depth = entry + 1 → (∀ next, .call (.replace next) ∉ p.moves) →
          LeftInside s.depth past opening) := by
  intro history exit past hs hleave opening outer innermost depth entry taken events
  obtain ⟨happened, -, made⟩ := run_keeps_history { stack := s } p
  obtain ⟨earlier, hexit⟩ := happened.record_at hs hleave
  have before := happened.of_suffix earlier
  have ho : opening ∈ openings past := innermost ▸ List.mem_cons_self
  have logged : events = exitEvents depth entry := by
    rw [← before.events_leave innermost, ← hexit]
  have wrong : .unbalanced depth (entry + 1) ∈ events ↔ depth ≠ entry + 1 := by
    rw [logged, exitEvents]
    by_cases right : depth = entry + 1
    · simp [right]
    · simp [right]
  refine ⟨wrong.trans (before.reports_iff ho), fun silent => ?_, (before.takenOff_iff ho).mp,
    fun off right whole => ?_⟩
  · rw [logged, exitEvents, if_pos (Decidable.not_not.mp (wrong.not.mp silent))]
  · refine before.leftInside_of_gone ho ?_ ((before.takenOff_iff ho).mp off) right
    rintro ⟨record, hr, next, replaced⟩
    exact whole next (replaced ▸ made record (earlier.subset hr))

/-- A body that pops the frame of its guard and pushes another one. -/
def exchanged : Program (Act Frame) (Block Frame) :=
  .block (.enter (.numbered 0) true false)
    (.act (.call .pop) <|
      .act (.call (.push (.numbered 1))) .done)
    .done

/-- The frame was taken off and another one is left over, and the exit logs a pop alone. -/
theorem exchange_goes_unseen :
    let history := (({ stack := .empty } : Machine Frame).run exchanged).1.history
    let exit := history.head (by decide)
    exit.move = .leave ∧ openings history.tail = [[]] ∧
      TakenOff 0 history.tail [] ∧ LeftInside 0 history.tail [] ∧
      exit.result.effect.events = [.popped 0] := by
  intro history exit
  have here : exit :: history.tail <:+ history := ⟨[], List.cons_head_tail _⟩
  have taken : TakenOff 0 history.tail [] :=
    ⟨history.tail.tail, List.tail_suffix _, by decide, by decide⟩
  have left : LeftInside 0 history.tail [] := ⟨.pushed 1, by decide, by decide, nofun⟩
  obtain ⟨reported, silent, -⟩ :=
    exits_see_all_but_exchanges .empty exchanged exit history.tail here rfl [] [] rfl
  exact ⟨rfl, rfl, taken, left, silent (fun seen => (reported.mp seen).2 ⟨taken, rfl⟩)⟩

end CallPath
