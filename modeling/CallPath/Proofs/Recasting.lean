import CallPath.Proofs.History

/-!
# One program on two machines

Two machines can differ and yet do the same: there may be more frames below one of them, or
another limit on it. A `Recast` says how the one is turned into the other, and with it the
answers, the events and the faults that tell of the difference. A move *fits* a recast at a
machine if it makes no odds whether the machine is recast before the move or after it.

Where every move fits, the run on the recast machine is the recast run, record by record
(`run_recast`). Otherwise there is a first move that does not fit. Up to it nothing is
different, and the two runs meet it on machines that are recasts of each other; what they do
afterwards is their own affair.
-/

namespace CallPath

variable {φ : Type}

/-- A way to turn machines into others, and what is seen of their moves along with them. -/
structure Recast (φ : Type) where
  machine : Machine φ → Machine φ
  answer : Answer φ → Answer φ
  event : Event → Event
  fault : Fault → Fault
  /-- A refusal stays a refusal, and nothing else becomes one. -/
  fault?_answer : ∀ a, (answer a).fault? = a.fault?.map fault

namespace Recast

variable (c : Recast φ)

def transition (t : Transition φ) : Transition φ :=
  { answer := c.answer t.answer
    machine := c.machine t.machine
    effect := { t.effect with events := t.effect.events.map c.event } }

def record (r : Record φ) : Record φ :=
  { before := c.machine r.before, move := r.move, result := c.transition r.result }

def recording (r : Recording φ) : Recording φ :=
  { machine := c.machine r.machine, history := r.history.map c.record }

def outcome : Outcome → Outcome
  | .failed (.refusal fault) => .failed (.refusal (c.fault fault))
  | .failed (.message text) => .failed (.message text)
  | .returned => .returned
  | .panicked message => .panicked message
  | .crashed => .crashed

/-- A whole run, recast: its records, the machine in the end, and how it ended. -/
def ended (x : Recording φ × Outcome) : Recording φ × Outcome := (c.recording x.1, c.outcome x.2)

theorem outcome_eq_returned {o : Outcome} : c.outcome o = .returned ↔ o = .returned := by
  cases o with
  | failed cause => cases cause <;> simp [outcome]
  | returned => simp [outcome]
  | panicked message => simp [outcome]
  | crashed => simp [outcome]

variable [Sentinel φ] [DecidableEq φ]

/-- A move does to the recast machine what it does to the machine. -/
def Fits (m : Machine φ) (mv : Move φ) : Prop := (c.machine m).step mv = c.transition (m.step mv)

variable {c}

theorem Fits.record {m : Machine φ} {mv : Move φ} (fits : c.Fits m mv) :
    (c.machine m).record mv = c.record (m.record mv) := by
  unfold Machine.record Recast.record
  rw [fits]

theorem Fits.move {r : Recording φ} {mv : Move φ} (fits : c.Fits r.machine mv) :
    (c.recording r).move mv = c.recording (r.move mv) := by
  have after : ((c.machine r.machine).step mv).machine = c.machine (r.machine.step mv).machine :=
    congrArg Transition.machine fits
  show Recording.mk ((c.machine r.machine).step mv).machine
    ((c.machine r.machine).record mv :: r.history.map c.record) = _
  rw [after, fits.record]
  rfl

/-- Two runs were recasts of each other up to a move that did not fit. -/
def Parted (c : Recast φ) (r r' : Recording φ) : Prop :=
  ∃ m mv past, m.record mv :: past <:+ r.history ∧
    (c.machine m).record mv :: past.map c.record <:+ r'.history ∧ ¬ c.Fits m mv

/-- A recording never loses a record. -/
theorem history_of_leads {r s : Recording φ} (h : Recording.host.Leads r s) :
    r.history <:+ s.history := by
  induction h with
  | stay => exact List.suffix_refl _
  | @act t a _ ih =>
      cases a with
      | call call => exact ih.trans (List.suffix_cons _ _)
      | fail message => exact ih
      | panic message => exact ih
  | @enter t b _ ih =>
      cases b with
      | enter frame insist forget =>
          show _ <:+ (t.enter .reachable frame insist).state.history
          rw [Recording.state_enter]
          exact ih.trans (List.suffix_cons _ _)
      | enterHidden frame insist =>
          show _ <:+ (t.enter .hidden frame insist).state.history
          rw [Recording.state_enter]
          exact ih.trans (List.suffix_cons _ _)
      | attempt => exact ih
  | @leave t b o _ ih =>
      cases b with
      | enter frame insist forget => exact ih.trans (List.suffix_cons _ _)
      | enterHidden frame insist => exact ih.trans (List.suffix_cons _ _)
      | attempt => exact ih

theorem Parted.later {r r' s s' : Recording φ} (h : c.Parted r r')
    (left : Recording.host.Leads r s) (right : Recording.host.Leads r' s') : c.Parted s s' := by
  obtain ⟨m, mv, past, here, there, unfit⟩ := h
  exact ⟨m, mv, past, here.trans (history_of_leads left), there.trans (history_of_leads right),
    unfit⟩

theorem move_alike (c : Recast φ) (r : Recording φ) (mv : Move φ) :
    c.Parted (r.move mv) ((c.recording r).move mv) ∨
      (c.recording r).move mv = c.recording (r.move mv) := by
  by_cases fits : c.Fits r.machine mv
  · exact .inr fits.move
  · exact .inl ⟨r.machine, mv, r.history, List.suffix_refl _, List.suffix_refl _, fits⟩

theorem enter_alike (c : Recast φ) (r : Recording φ) (manner : Manner) (frame : φ)
    (insist : Bool) :
    OpensAlikeUnless c.Parted (fun r r' => r' = c.recording r) (fun o o' => o' = c.outcome o)
      (r.enter manner frame insist) ((c.recording r).enter manner frame insist) := by
  by_cases fits : c.Fits r.machine (.enter manner frame)
  · -- both entries are refused, or neither
    have answers : ((c.machine r.machine).enter manner frame).answer.fault?
        = (r.machine.enter manner frame).answer.fault?.map c.fault := by
      rw [← c.fault?_answer]
      exact congrArg (fun t => t.answer.fault?) fits
    unfold Recording.enter
    dsimp only
    rw [show (c.recording r).machine = c.machine r.machine from rfl, answers, fits.move]
    cases (r.machine.enter manner frame).answer.fault? with
    | none => exact .opened rfl
    | some fault =>
        refine .skipped rfl ?_
        cases insist <;> rfl
  · refine .apart ?_
    rw [Recording.state_enter, Recording.state_enter]
    exact ⟨r.machine, .enter manner frame, r.history, List.suffix_refl _, List.suffix_refl _,
      fits⟩

/-- **A run on the recast machine is the recast run,** unless some move did not fit. In that
case there is a first such move, and both runs came to it with the same history. -/
theorem run_recast (c : Recast φ) (m : Machine φ) (p : Program (Act φ) (Block φ)) :
    c.Parted (m.run p).1 ((c.machine m).run p).1 ∨ (c.machine m).run p = c.ended (m.run p) := by
  have alike : EndsAlikeUnless c.Parted (fun r r' => r' = c.recording r)
      (fun o o' => o' = c.outcome o) (m.run p) ((c.machine m).run p) := by
    refine run_alike_unless (h := Recording.host) (k := Recording.host) (D := c.Parted)
      (R := fun r r' => r' = c.recording r) (Q := fun o o' => o' = c.outcome o) ?_ rfl
      (fun _ _ _ _ parted left right => parted.later left right) p ?_ ?_ ?_ _ _ rfl
    · intro o o' same
      rw [same, c.outcome_eq_returned]
    · rintro a - r _ rfl
      cases a with
      | call call =>
          rcases c.move_alike r (.call call) with parted | same
          · exact .inl parted
          · exact .inr ⟨same, rfl⟩
      | fail message => exact .inr ⟨rfl, rfl⟩
      | panic message => exact .inr ⟨rfl, rfl⟩
    · rintro b - r _ rfl
      cases b with
      | enter frame insist forget => exact c.enter_alike r .reachable frame insist
      | enterHidden frame insist => exact c.enter_alike r .hidden frame insist
      | attempt => exact .opened rfl
    · rintro b - o _ r _ rfl rfl
      have closed : ∀ mv, EndsAlikeUnless c.Parted (fun r r' => r' = c.recording r)
          (fun o o' => o' = c.outcome o) (r.move mv, o)
          ((c.recording r).move mv, c.outcome o) := by
        intro mv
        rcases c.move_alike r mv with parted | same
        · exact .inl parted
        · exact .inr ⟨same, rfl⟩
      cases b with
      | enter frame insist forget =>
          -- the guard is forgotten after a return, and returns correspond
          have exits : ∀ x : Outcome, Recording.host.leave (.enter frame insist forget) x
              = fun r => (r.move (if forget && x = .returned then .forget else .leave), x) :=
            fun x => rfl
          rw [exits, exits]
          simp only [c.outcome_eq_returned]
          exact closed _
      | enterHidden frame insist => exact closed .leave
      | attempt => exact .inr ⟨rfl, rfl⟩
  rcases alike with parted | ⟨recordings, outcomes⟩
  · exact .inl parted
  · exact .inr (Prod.ext recordings outcomes)

end Recast

end CallPath
