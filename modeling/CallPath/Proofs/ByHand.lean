import CallPath.Proofs.EventLog
import CallPath.Proofs.HandleFlow
import CallPath.Proofs.Unwinding

/-!
# Guards done by hand

Before there were guards there were pushes and pops, and a careful program could make do with
them: it pushed a frame, did what was to be done, and popped the frame again. `Program.byHand`
turns guarded entries back into that. Where every body comes back to the depth at which it
began, nobody can tell the difference from what the stack does, for all that a guard does then
is to pop (`run_byHand`).

What remains of the guards is a handle each. How many handles there are need not be counted
step by step: no history loses a handle or makes one up, with guards or without
(`Happened.conserves`), so two that are given the same handles and hand over the same differ by
what their machines hold.
-/

namespace CallPath

variable {α β σ φ : Type}

/-! ## One program after another -/

namespace Program

/-- Goes on with another program after the end. -/
def append : Program α β → Program α β → Program α β
  | done, q => q
  | act a rest, q => act a (rest.append q)
  | block b body rest, q => block b body (rest.append q)
  | loop n body rest, q => loop n body (rest.append q)

end Program

theorem andThen_assoc (x : σ × Outcome) (f g : σ → σ × Outcome) :
    andThen (andThen x f) g = andThen x (fun s => andThen (f s) g) := by
  obtain ⟨s, o⟩ := x
  cases o <;> rfl

theorem run_append (host : Host α β σ) (p q : Program α β) (s : σ) :
    (p.append q).run host s = andThen (p.run host s) (q.run host) := by
  induction p generalizing s with
  | done => rfl
  | act a rest ih =>
      rw [Program.append, Program.run, Program.run, andThen_assoc]
      exact congrArg _ (funext ih)
  | block b body rest _ ih =>
      rw [Program.append, run_block_done, run_block_done host b body rest, andThen_assoc]
      exact congrArg _ (funext ih)
  | loop n body rest _ ih =>
      rw [Program.append, Program.run, Program.run, andThen_assoc]
      exact congrArg _ (funext ih)

theorem run_loop_succ (host : Host α β σ) (n : Nat) (body rest : Program α β) (s : σ) :
    (Program.loop (n + 1) body rest).run host s
      = andThen (body.run host s) ((Program.loop n body rest).run host) :=
  andThen_assoc _ _ _

/-! ## Doing it by hand -/

/-- The frame that a block enters, if it enters one. -/
def Block.frame? : Block φ → Option φ
  | .enter frame _ _ | .enterHidden frame _ => some frame
  | .attempt => none

/-- The same program without guards. An entry becomes a push, and where its guard would be left,
there is a pop. -/
def Program.byHand : Program (Act φ) (Block φ) → Program (Act φ) (Block φ)
  | done => done
  | act a rest => act a rest.byHand
  | loop n body rest => loop n body.byHand rest.byHand
  | block b body rest =>
      match b.frame? with
      | none => block b body.byHand rest.byHand
      | some frame =>
          act (.call (.push frame)) <|
          body.byHand.append <|
          if b.leaves .returned then act (.call .pop) rest.byHand else rest.byHand

/-- The machine without its guards, live or forgotten. -/
def Machine.bare (m : Machine φ) : Machine φ := { stack := m.stack }

/-- What is recorded of a move that is done by hand: the same frames before and after, the same
events, and, of a call, the same answer and whatever else it did. To forget a guard, nothing is
to be done. -/
def Record.byHand [Sentinel φ] (record : Record φ) : Option (Record φ) :=
  let done (c : Call φ) (answer : Answer φ) (effect : Effect φ) : Record φ :=
    { before := record.before.bare
      move := .call c
      result := { answer, machine := record.result.machine.bare, effect } }
  let logged : Effect φ := { events := record.result.effect.events }
  match record.move with
  | .call c => some (done c record.result.answer record.result.effect)
  | .enter _ frame => some (done (.push frame) .done logged)
  | .leave => some (done .pop (.frame record.before.stack.top) logged)
  | .forget => none

def Recording.byHand [Sentinel φ] (r : Recording φ) : Recording φ :=
  { machine := r.machine.bare, history := r.history.filterMap Record.byHand }

variable [Sentinel φ] [DecidableEq φ]

/-- That the body of `b`, opened on the recording `r`, is let in and returns, and finds the stack
just one frame deeper than it was when the guard is to be left. -/
def Block.KeepsBalance (b : Block φ) (body : Program (Act φ) (Block φ)) (r : Recording φ) : Prop :=
  ∃ t, Recording.host.enter b r = .opened t ∧ (body.run Recording.host t).2 = .returned ∧
    (b.leaves .returned = true →
      (body.run Recording.host t).1.machine.stack.depth = r.machine.stack.depth + 1)

/-- That no guard of a run is ever needed: wherever the run comes to a guarded body, this is let
in, returns and keeps the balance. -/
def Program.KeepsBalance (p : Program (Act φ) (Block φ)) (r : Recording φ) : Prop :=
  ∀ pending b body rest t, Reaches Recording.host p r pending (.block b body rest) t →
    b.frame?.isSome → b.KeepsBalance body t

namespace Program.KeepsBalance

variable {a : Act φ} {b : Block φ} {body rest : Program (Act φ) (Block φ)} {r t : Recording φ}

theorem done (r : Recording φ) : KeepsBalance .done r := by
  intro pending b body rest t way
  cases way

theorem act_iff : (Program.act a rest).KeepsBalance r ↔
    ((Recording.host.act a r).2 = .returned → rest.KeepsBalance (Recording.host.act a r).1) := by
  constructor
  · intro h returned pending b body rest t way
    exact h _ _ _ _ _ (.act (Prod.ext rfl returned) way)
  · intro h pending b body rest t way
    cases way with
    | act ha way =>
        rw [ha] at h
        exact h rfl _ _ _ _ _ way

theorem block_iff : (Program.block b body rest).KeepsBalance r ↔
    (b.frame?.isSome → b.KeepsBalance body r) ∧
    (∀ t, Recording.host.enter b r = .opened t → body.KeepsBalance t) ∧
    (((Program.block b body .done).run Recording.host r).2 = .returned →
      rest.KeepsBalance ((Program.block b body .done).run Recording.host r).1) := by
  constructor
  · intro h
    refine ⟨h _ _ _ _ _ .here, ?_, ?_⟩
    · intro t ht pending b body rest u way
      exact h _ _ _ _ _ (.inBlock ht way)
    · intro returned pending b body rest u way
      exact h _ _ _ _ _ (.block (Prod.ext rfl returned) way)
  · rintro ⟨here, inside, after⟩ pending b body rest t way
    cases way with
    | here => exact here
    | block hb way =>
        rw [hb] at after
        exact after rfl _ _ _ _ _ way
    | inBlock hb way => exact inside _ hb _ _ _ _ _ way

theorem loop_zero_iff : (Program.loop 0 body rest).KeepsBalance r ↔ rest.KeepsBalance r := by
  constructor
  · exact fun h pending b body rest t way => h _ _ _ _ _ (.loop way)
  · intro h pending b body rest t way
    cases way with
    | loop way => exact h _ _ _ _ _ way

theorem loop_succ_iff {n : Nat} : (Program.loop (n + 1) body rest).KeepsBalance r ↔
    body.KeepsBalance r ∧ ((body.run Recording.host r).2 = .returned →
      (Program.loop n body rest).KeepsBalance (body.run Recording.host r).1) := by
  constructor
  · intro h
    refine ⟨?_, ?_⟩
    · exact fun pending b body rest t way => h _ _ _ _ _ (.inRound way)
    · intro returned pending b body rest t way
      exact h _ _ _ _ _ (.round (Prod.ext rfl returned) way)
  · rintro ⟨inside, after⟩ pending b body rest t way
    cases way with
    | round hr way =>
        rw [hr] at after
        exact after rfl _ _ _ _ _ way
    | inRound way => exact inside _ _ _ _ _ way

end Program.KeepsBalance

/-! Whether a run keeps the balance can be found out by running it. -/

instance (b : Block φ) (body : Program (Act φ) (Block φ)) (r : Recording φ) :
    Decidable (b.KeepsBalance body r) :=
  match h : Recording.host.enter b r with
  | .skipped _ _ => isFalse (by rintro ⟨t, opened, -⟩; rw [h] at opened; cases opened)
  | .opened t =>
      decidable_of_iff ((body.run Recording.host t).2 = .returned ∧ (b.leaves .returned = true →
          (body.run Recording.host t).1.machine.stack.depth = r.machine.stack.depth + 1))
        ⟨fun ended => ⟨t, h, ended⟩,
          by rintro ⟨u, opened, ended⟩; rw [h] at opened; cases opened; exact ended⟩

instance (b : Block φ) (r : Recording φ) (P : Recording φ → Prop) [DecidablePred P] :
    Decidable (∀ t, Recording.host.enter b r = .opened t → P t) :=
  match h : Recording.host.enter b r with
  | .skipped _ _ => isTrue nofun
  | .opened t => decidable_of_iff (P t) ⟨fun inside u same => by cases same; exact inside,
      fun inside => inside t rfl⟩

instance Program.decidableRounds {body rest : Program (Act φ) (Block φ)}
    [DecidablePred body.KeepsBalance] [DecidablePred rest.KeepsBalance] :
    (n : Nat) → DecidablePred (Program.loop n body rest).KeepsBalance
  | 0, _ => decidable_of_iff _ KeepsBalance.loop_zero_iff.symm
  | n + 1, _ =>
      have : DecidablePred (Program.loop n body rest).KeepsBalance := decidableRounds n
      decidable_of_iff _ KeepsBalance.loop_succ_iff.symm

instance Program.decidableKeepsBalance :
    (p : Program (Act φ) (Block φ)) → DecidablePred p.KeepsBalance
  | done, r => isTrue (.done r)
  | act _ rest, _ =>
      have := rest.decidableKeepsBalance
      decidable_of_iff _ KeepsBalance.act_iff.symm
  | block _ body rest, _ =>
      have := body.decidableKeepsBalance
      have := rest.decidableKeepsBalance
      decidable_of_iff _ KeepsBalance.block_iff.symm
  | loop n body rest, r =>
      have := body.decidableKeepsBalance
      have := rest.decidableKeepsBalance
      decidableRounds n r

/-! ## Move by move -/

namespace Machine

variable {m : Machine φ}

/-- An entry that is let in does to the stack what a push does, and logs the same. -/
theorem record_enter_byHand {manner : Manner} {frame : φ}
    (accepted : (m.enter manner frame).answer.fault? = none) :
    (m.record (.enter manner frame)).byHand = some (m.bare.record (.call (.push frame))) := by
  rw [fault?_enter, Option.map_eq_none_iff] at accepted
  unfold Record.byHand record
  dsimp only [step]
  rw [enter_accepted accepted]
  rfl

/-- An exit in balance does to the stack what a pop does, and logs the same. -/
theorem record_leave_byHand {guard : Guard φ} {guards : List (Guard φ)}
    (live : m.guards = guard :: guards) (balanced : m.stack.depth = guard.entryDepth + 1) :
    (m.record .leave).byHand = some (m.bare.record (.call .pop)) := by
  obtain ⟨frame, rest, hp, -⟩ := Stack.pop?_of_depth balanced
  have top : m.stack.top = frame := by
    rw [Stack.top_eq, (Stack.pop?_eq_some.mp hp).1]
    rfl
  unfold Record.byHand record
  dsimp only [step, call, bare]
  rw [Stack.call_pop_of_some hp, leave_of_cons live, release_balanced balanced hp, top]

end Machine

omit [DecidableEq φ] in
theorem Record.machine_byHand {record record' : Record φ} (h : record.byHand = some record') :
    record'.result.machine = record.result.machine.bare := by
  obtain ⟨before, move, result⟩ := record
  cases move with
  | forget => cases h
  | _ => cases h; rfl

theorem Recording.byHand_move {r : Recording φ} {mv : Move φ} {c : Call φ}
    (h : (r.machine.record mv).byHand = some (r.machine.bare.record (.call c))) :
    (r.move mv).byHand = r.byHand.move (.call c) := by
  have machine := Record.machine_byHand h
  have history : (r.machine.record mv :: r.history).filterMap Record.byHand
      = r.machine.bare.record (.call c) :: r.history.filterMap Record.byHand :=
    List.filterMap_cons_some h
  unfold Recording.byHand
  congr 1
  exact machine.symm

theorem Recording.byHand_forget (r : Recording φ) : (r.move .forget).byHand = r.byHand := by
  obtain ⟨⟨stack, guards, forgotten⟩, history⟩ := r
  cases guards <;> rfl

theorem Recording.byHand_act (a : Act φ) (r : Recording φ) :
    Recording.host.act a r.byHand
      = ((Recording.host.act a r).1.byHand, (Recording.host.act a r).2) := by
  cases a <;> rfl

/-- To open a body is to push its frame. The guard remembers the depth before that. -/
theorem Recording.byHand_opened {r t : Recording φ} {manner : Manner} {frame : φ} {insist : Bool}
    (h : r.enter manner frame insist = .opened t) :
    t.byHand = r.byHand.move (.call (.push frame)) ∧
      ∃ guard, t.machine.guards = guard :: r.machine.guards ∧
        guard.entryDepth = r.machine.stack.depth := by
  unfold Recording.enter at h
  dsimp only at h
  rcases r.machine.enter_cases manner frame with ⟨⟨fault, hf⟩, -⟩ | ⟨hf, hm⟩
  · rw [hf] at h
    cases h
  · rw [hf] at h
    cases h
    exact ⟨Recording.byHand_move (Machine.record_enter_byHand hf),
      _, congrArg Machine.guards hm, rfl⟩

/-! ## Whole runs -/

section

variable {b : Block φ} {frame : φ} {r t : Recording φ}

theorem Block.opened_byHand (entry : b.frame? = some frame)
    (h : Recording.host.enter b r = .opened t) :
    t.byHand = r.byHand.move (.call (.push frame)) ∧
      ∃ guard, t.machine.guards = guard :: r.machine.guards ∧
        guard.entryDepth = r.machine.stack.depth := by
  cases b with
  | enter frame insist forget =>
      cases entry
      exact Recording.byHand_opened h
  | enterHidden frame insist =>
      cases entry
      exact Recording.byHand_opened h
  | attempt => cases entry

theorem Block.leave_returned (entry : b.frame? = some frame) (r : Recording φ) :
    Recording.host.leave b .returned r
      = (r.move (if b.leaves .returned then .leave else .forget), .returned) := by
  cases b with
  | enter frame insist forget => cases forget <;> rfl
  | enterHidden frame insist => rfl
  | attempt => cases entry

omit [DecidableEq φ] in
theorem andThen_byHand {x : Recording φ × Outcome} {f g : Recording φ → Recording φ × Outcome}
    (next : x.2 = .returned → g x.1.byHand = Prod.map Recording.byHand id (f x.1)) :
    andThen (Prod.map Recording.byHand id x) g
      = Prod.map Recording.byHand id (andThen x f) := by
  obtain ⟨r, o⟩ := x
  by_cases returned : o = .returned
  · cases returned
    exact next rfl
  · rw [andThen_of_ne returned f]
    exact andThen_of_ne returned g

/-- A guarded body that keeps the balance is closed as by hand. -/
theorem Block.closed_byHand {guard : Guard φ} {guards : List (Guard φ)}
    (entry : b.frame? = some frame) (live : t.machine.guards = guard :: guards)
    (back : b.leaves .returned = true → t.machine.stack.depth = guard.entryDepth + 1)
    (q : Program (Act φ) (Block φ)) :
    (if b.leaves .returned then .act (.call .pop) q else q).run Recording.host t.byHand
      = q.run Recording.host (Recording.host.leave b .returned t).1.byHand := by
  rw [Block.leave_returned entry]
  by_cases leaves : b.leaves .returned = true
  · have popped := Machine.record_leave_byHand live (back leaves)
    rw [if_pos leaves, if_pos leaves, Recording.byHand_move popped]
    rfl
  · rw [if_neg leaves, if_neg leaves, Recording.byHand_forget]

end

/-- **Guards can be done by hand,** if every body keeps the balance. The run by hand is the
guarded one with the guards left out, and has its outcome. -/
theorem run_byHand (p : Program (Act φ) (Block φ)) : ∀ r, p.KeepsBalance r →
    p.byHand.run Recording.host r.byHand
      = Prod.map Recording.byHand id (p.run Recording.host r) := by
  induction p with
  | done => exact fun r _ => rfl
  | act a rest ih =>
      intro r balanced
      have later := Program.KeepsBalance.act_iff.mp balanced
      rw [Program.byHand, Program.run, Program.run, Recording.byHand_act]
      exact andThen_byHand (fun returned => ih _ (later returned))
  | block b body rest ihBody ihRest =>
      intro r balanced
      obtain ⟨here, inside, after⟩ := Program.KeepsBalance.block_iff.mp balanced
      cases entry : b.frame? with
      | none =>
          cases b with
          | enter frame insist forget => cases entry
          | enterHidden frame insist => cases entry
          | attempt =>
              show andThen ((body.byHand.run Recording.host r.byHand).1, .returned) _ = _
              rw [ihBody r (inside r rfl)]
              exact andThen_byHand (x := (_, .returned)) (fun _ => ihRest _ (after rfl))
      | some frame =>
          obtain ⟨t, opened, returned, back⟩ := here (by rw [entry]; rfl)
          obtain ⟨pushed, guard, live, depth⟩ := Block.opened_byHand entry opened
          have ended : body.byHand.run Recording.host t.byHand
              = ((body.run Recording.host t).1.byHand, .returned) := by
            rw [ihBody t (inside t opened)]
            exact Prod.ext rfl returned
          obtain ⟨closed, hclosed⟩ : ∃ closed,
              Recording.host.leave b .returned (body.run Recording.host t).1 = (closed, .returned) :=
            ⟨_, Block.leave_returned entry _⟩
          -- in the guarded run, whatever follows the block goes on from where it was closed
          have goes_on : ∀ q, (Program.block b body q).run Recording.host r
              = q.run Recording.host closed := by
            intro q
            rw [Program.run, opened]
            show andThen (Recording.host.leave b (body.run Recording.host t).2 _) _ = _
            rw [returned, hclosed]
            rfl
          rw [goes_on] at after
          have by_hand : (Program.block b body rest).byHand.run Recording.host r.byHand
              = rest.byHand.run Recording.host closed.byHand := by
            rw [Program.byHand, entry]
            show (body.byHand.append _).run Recording.host
              (r.byHand.move (.call (.push frame))) = _
            rw [← pushed, run_append, ended]
            have closes := Block.closed_byHand entry ((run_guards body t).trans live)
              (fun leaves => by rw [back leaves, depth]) rest.byHand
            rw [hclosed] at closes
            exact closes
          rw [goes_on, by_hand]
          exact ihRest closed (after rfl)
  | loop n body rest ihBody ihRest =>
      induction n with
      | zero =>
          intro r balanced
          exact ihRest r (Program.KeepsBalance.loop_zero_iff.mp balanced)
      | succ n ih =>
          intro r balanced
          obtain ⟨inside, after⟩ := Program.KeepsBalance.loop_succ_iff.mp balanced
          rw [run_loop_succ, Program.byHand, run_loop_succ, ihBody r inside]
          exact andThen_byHand (fun returned => ih _ (after returned))

/-! ## Handles over a whole history -/

section

variable (past : List (Record φ))

/-- The handles that were passed by then. -/
def received : List φ := past.flatMap (fun record => record.move.given)

/-- The handles that were made by then. -/
def made : List φ := past.flatMap (fun record => record.result.effect.cloned)

/-- The handles that were handed over by then. -/
def handedOver : List φ := past.flatMap (fun record => record.result.answer.kept)

/-- The handles that were given up by then. -/
def givenUp : List φ := past.flatMap (fun record => record.result.effect.dropped)

/-- The frames that the pops in the place of exits hand over, for nobody to keep. -/
def discarded : List φ :=
  past.flatMap (fun record =>
    match record.move with
    | .leave => [record.before.stack.top]
    | _ => [])

end

/-- **No history loses a handle or makes one up.** -/
theorem Happened.conserves {start : Machine φ} {past : List (Record φ)} (h : Happened start past) :
    (start.handles ++ received past ++ made past).Perm
      ((now start past).handles ++ handedOver past ++ givenUp past) := by
  induction h with
  | nil => exact .refl _
  | @move past mv _ ih =>
      refine List.perm_iff_count.mpr (fun a => ?_)
      have before := ih.count_eq a
      have step := ((now start past).step_conserves mv).handles.count_eq a
      simp only [received, made, handedOver, givenUp, now, Machine.record, List.flatMap_cons,
        List.count_append] at before step ⊢
      omega

/-- What a history comes to by hand. -/
structure SameByHand (start : Machine φ) (past : List (Record φ)) : Prop where
  now_eq : now start (past.filterMap Record.byHand) = (now start past).bare
  log_eq : log (past.filterMap Record.byHand) = log past
  received_eq : received (past.filterMap Record.byHand) = received past
  handedOver_count : ∀ frame, (handedOver (past.filterMap Record.byHand)).count frame
    = (handedOver past).count frame + (discarded past).count frame

section

variable {start : Machine φ} {past : List (Record φ)}

theorem SameByHand.cons {record record' : Record φ} (h : SameByHand start past)
    (done : record.byHand = some record') (given : record'.move.given = record.move.given)
    (events : record'.result.effect.events = record.result.effect.events)
    (kept : record'.result.answer.kept = record.result.answer.kept ++ discarded [record]) :
    SameByHand start (record :: past) where
  now_eq := by
    rw [List.filterMap_cons_some done]
    exact Record.machine_byHand done
  log_eq := by rw [List.filterMap_cons_some done, log_cons, log_cons, h.log_eq, events]
  received_eq := by
    rw [List.filterMap_cons_some done]
    exact congrArg₂ (· ++ ·) given h.received_eq
  handedOver_count := by
    intro frame
    have before := h.handedOver_count frame
    have here := congrArg (List.count frame) kept
    simp only [handedOver, discarded, List.filterMap_cons_some done, List.flatMap_cons,
      List.flatMap_nil, List.append_nil, List.count_append] at before here ⊢
    omega

theorem Machine.kept_enter (m : Machine φ) (manner : Manner) (frame : φ) :
    (m.enter manner frame).answer.kept = [] := by
  cases hr : m.stack.limit.refusal? m.stack.depth with
  | some limit => rw [enter_refused hr]; rfl
  | none => rw [enter_accepted hr]; rfl

omit [Sentinel φ] [DecidableEq φ] in
/-- To forget a guard does nothing that could be told from the stack, the log or the answer. -/
theorem Machine.forget_idle (m : Machine φ) :
    m.bare = m.forget.machine.bare ∧ m.forget.effect = {} ∧ m.forget.answer.kept = [] := by
  obtain ⟨stack, guards, forgotten⟩ := m
  cases guards <;> exact ⟨rfl, rfl, rfl⟩

/-- Whatever was done by hand was given the same, logs the same and hands over the same, but for
what a pop in the place of an exit hands over. -/
theorem SameByHand.move (h : SameByHand start past) (mv : Move φ) :
    SameByHand start ((now start past).record mv :: past) := by
  cases mv with
  | call c => exact h.cons rfl rfl rfl (List.append_nil _).symm
  | enter manner frame =>
      refine h.cons rfl rfl rfl ?_
      exact (congrArg (· ++ []) ((now start past).kept_enter manner frame)).symm
  | leave =>
      refine h.cons rfl rfl rfl ?_
      show _ = (now start past).leave.answer.kept ++ _
      rw [Machine.answer_leave]
      rfl
  | forget =>
      obtain ⟨stack, effect, kept⟩ := (now start past).forget_idle
      have unseen : ((now start past).record .forget).byHand = none := rfl
      refine ⟨?_, ?_, ?_, ?_⟩
      · rw [List.filterMap_cons_none unseen, h.now_eq, stack]
        rfl
      · rw [List.filterMap_cons_none unseen, log_cons, h.log_eq]
        show log past = log past ++ (now start past).forget.effect.events
        rw [effect, List.append_nil]
      · rw [List.filterMap_cons_none unseen, h.received_eq]
        rfl
      · intro frame
        rw [List.filterMap_cons_none unseen, h.handedOver_count]
        show _ = (((now start past).forget.answer.kept ++ handedOver past).count frame)
          + ([] ++ discarded past).count frame
        rw [kept]
        rfl

theorem Happened.same_byHand {s : Stack φ} (h : Happened { stack := s } past) :
    SameByHand { stack := s } past := by
  induction h with
  | nil => exact ⟨rfl, rfl, rfl, fun _ => rfl⟩
  | move mv _ ih => exact ih.move mv

end

/-- **With guards and without.** Take a run in which no entry is refused and every guarded body
returns and, unless its guard is forgotten then, leaves the stack just one frame deeper than it
was before the entry. The same program without guards, where an entry is a push, and a pop stands
where its guard would be left, ends in the same outcome with the same frames. Its history is that
of the guarded run with each entry and exit done by hand, and so, step by step, it has the same
frames and answers. At every point it has logged the same events. The handles that there are by
then, over those of the beginning, are the same but for one handle for each guard that is live
or forgotten. -/
theorem guards_by_hand (s : Stack φ) (p : Program (Act φ) (Block φ))
    (balanced : p.KeepsBalance { machine := { stack := s } }) :
    let start : Machine φ := { stack := s }
    let guarded := start.run p
    let manual := start.run p.byHand
    manual.2 = guarded.2 ∧ manual.1.machine.stack = guarded.1.machine.stack ∧
      manual.1.history = guarded.1.history.filterMap Record.byHand ∧
      ∀ past, past <:+ guarded.1.history →
        let past' := past.filterMap Record.byHand
        let m := now start past
        now start past' = m.bare ∧ log past' = log past ∧
          ∀ frame, ((made past).count frame : Int) - (givenUp past).count frame
            = (made past').count frame - (givenUp past' ++ discarded past).count frame
              + (m.guards.map Guard.frame ++ m.forgotten).count frame := by
  intro start guarded manual
  have same : manual = Prod.map Recording.byHand id guarded :=
    run_byHand p { machine := start } balanced
  rw [same]
  refine ⟨rfl, rfl, rfl, ?_⟩
  intro past hs past' m
  have happened : Happened start past := (run_keeps_history start p).happened.of_suffix hs
  have happened' : Happened start past' := by
    refine (run_keeps_history start p.byHand).happened.of_suffix ?_
    show past' <:+ manual.1.history
    rw [same]
    exact hs.filterMap Record.byHand
  have both := happened.same_byHand
  refine ⟨both.now_eq, both.log_eq, fun frame => ?_⟩
  -- the two runs are given the same handles, and what they hand over and hold is known
  have conserved : (start.handles ++ received past ++ made past).count frame
      = (m.handles ++ handedOver past ++ givenUp past).count frame :=
    happened.conserves.count_eq frame
  have conserved' := happened'.conserves.count_eq frame
  have handed : (handedOver past').count frame
      = (handedOver past).count frame + (discarded past).count frame :=
    both.handedOver_count frame
  have held : (now start past').handles = m.stack.toList := by
    rw [both.now_eq]
    exact (List.append_nil _).trans (List.append_nil _)
  have given : received past' = received past := both.received_eq
  rw [held, given] at conserved'
  simp only [Machine.handles, List.count_append] at conserved conserved' handed ⊢
  omega

/-- A body that puts another frame in the slot of its guard before it enters the next one, and a
guard that is forgotten on a frame too many. -/
def untidy : Program (Act Frame) (Block Frame) :=
  .block (.enter (.numbered 1) true false)
    (.act (.call .pop) <|
      .act (.call (.push (.numbered 2))) <|
      .block (.enterHidden (.numbered 3) true) (.act (.call (.swap (.numbered 4))) .done) .done) <|
  .block (.enter (.numbered 5) true true) (.act (.call (.push (.numbered 6))) .done) .done

/-- The stack that it is run on. -/
def single : Stack Frame := .ofList {} [.numbered 0]

theorem untidy_by_hand :
    let start : Machine Frame := { stack := single }
    let guarded := (start.run untidy).1.history
    let manual := (start.run untidy.byHand).1.history
    untidy.KeepsBalance { machine := start } ∧
      (start.run untidy.byHand).2 = (start.run untidy).2 ∧
      log manual = log guarded ∧
      log guarded = [.pushed 2, .popped 1, .pushed 2, .pushed 3, .swapped 3, .popped 2, .popped 1,
        .pushed 2, .pushed 3] ∧
      ((made guarded).count (.numbered 5) : Int) - (givenUp guarded).count (.numbered 5)
        = (made manual).count (.numbered 5)
          - (givenUp manual ++ discarded guarded).count (.numbered 5) + 1 := by
  have balanced : untidy.KeepsBalance { machine := { stack := single } } := by decide
  obtain ⟨outcome, -, history, points⟩ := guards_by_hand single untidy balanced
  obtain ⟨-, logged, handles⟩ := points _ (List.suffix_refl _)
  rw [← history] at logged handles
  exact ⟨balanced, outcome, logged, by decide, handles (.numbered 5)⟩

end CallPath
