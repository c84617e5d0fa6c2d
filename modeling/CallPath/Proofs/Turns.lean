import CallPath.Proofs.Alongside
import CallPath.Proofs.Bindings

/-!
# Taking turns on stacks of their own

A copy of a stack is a stack of its own, though its frames are not copied. Several scripts run
on a stack and on copies of it, and take turns. In which order they take them makes no
difference to any of them: each sees on its stack, and has returned and logged, what it would
have alone.

What the stacks do have in common is the frames. How many handles to a frame are out is counted
over all stacks, so it does change with every turn of anybody. But in the end it is the number
of those who hold one, and these are the same in whatever order the turns were taken. And a
binding belongs to the frame and not to the stack through which it was defined.
-/

namespace CallPath

/-! ## Turns -/

/-- A turn of one script, to be run on the current stack or on one in the table. -/
structure Turn where
  /-- The name of the stack; absent for the current one. -/
  target : Option String
  script : Script

def Turn.isOn (target : Option String) (turn : Turn) : Bool := turn.target = target

/-- A turn, spelled out for the session. -/
def Turn.whole (turn : Turn) : Script :=
  match turn.target with
  | none => turn.script
  | some name => .block (.within name) turn.script .done

/-- What a turn came to. -/
structure Report where
  target : Option String
  /-- What the steps came to, and what was logged with each. -/
  shown : List (String × Result × List Event)
  outcome : Outcome
  /-- The frames whose guards were forgotten. -/
  forgotten : List Frame

def Report.isOn (target : Option String) (report : Report) : Bool := report.target = target

/-- What a step tells of the stack it was about. The depth that goes with it is that of the
stack which is current afterwards. -/
def Step.told (step : Step) : String × Result × List Event := (step.name, step.result, step.events)

namespace Session

/-- The current stack, or one in the table. -/
def stack? (s : Session) : Option String → Option (Stack Frame)
  | none => some s.machine.stack
  | some name => s.named.find? name

def turn (s : Session) (turn : Turn) : Session × Report :=
  let ended := s.run turn.whole
  let lost := ended.1.machine.forgotten.length - s.machine.forgotten.length
  (ended.1,
    { target := turn.target
      shown := (ended.1.steps.toList.drop s.steps.size).map Step.told
      outcome := ended.2
      forgotten := ended.1.machine.forgotten.take lost })

/-- Turns one after the other, whatever each comes to. -/
def turns (s : Session) : List Turn → Session × List Report
  | [] => (s, [])
  | turn :: rest =>
      let taken := s.turn turn
      let later := taken.1.turns rest
      (later.1, taken.2 :: later.2)

variable {s t u : Session} {name : String} {p : Script}

theorem turn_eq {turn : Turn} {o : Outcome} {added : List Step} {lost : List Frame}
    (ended : s.run turn.whole = (t, o)) (steps : t.steps.toList = s.steps.toList ++ added)
    (forgotten : t.machine.forgotten = lost ++ s.machine.forgotten) :
    s.turn turn
      = (t, { target := turn.target, shown := added.map Step.told, outcome := o,
              forgotten := lost }) := by
  simp only [Session.turn, ended, steps, forgotten, List.length_append, Nat.add_sub_cancel,
    List.take_left, ← Array.length_toList, List.drop_left]

/-! ## A body on a stack of its own -/

theorem andThen_done {σ : Type} (x : σ × Outcome) : andThen x (fun s => (s, .returned)) = x := by
  obtain ⟨s, o⟩ := x
  cases o <;> rfl

theorem run_within_none (unknown : s.named.find? name = none) :
    s.run (.block (.within name) p .done) = (s.step "with" .rejected, .returned) := by
  rw [Session.run, Program.run,
    show host.enter (.within name) s = _ from openBody_within_none unknown]
  rfl

theorem run_within_some {stack : Stack Frame} (found : s.named.find? name = some stack) :
    s.run (.block (.within name) p .done)
      = ((((s.suspendFor name stack).run p).1.resume name).step "end_with" .nothing,
          ((s.suspendFor name stack).run p).2) := by
  rw [Session.run, Program.run,
    show host.enter (.within name) s = _ from openBody_within_some found]
  exact andThen_done _

theorem resume_of_cons {outer : Machine Frame} {rest : List (Machine Frame)}
    (suspended : s.suspended = outer :: rest) :
    s.resume name
      = Session.store
          { s with
            machine := { outer with forgotten := s.machine.forgotten ++ outer.forgotten }
            suspended := rest }
          name s.machine.stack := by
  simp only [resume, suspended]

theorem steps_resume (s : Session) (name : String) : (s.resume name).steps = s.steps := by
  unfold resume
  split <;> rfl

theorem log_resume (s : Session) (name : String) : (s.resume name).log = s.log := by
  unfold resume
  split <;> rfl

theorem kept_resume (s : Session) (name : String) (place : Place) :
    (s.resume name).kept place = s.kept place := by
  unfold resume
  split <;> cases place <;> rfl

/-- What a body on a stack of its own leaves in the table. -/
theorem stack?_resume (suspended : t.suspended = s.machine :: s.suspended)
    (named : t.named = s.named.erase name) (other : Option String) :
    (t.resume name).stack? other
      = if other = some name then some t.machine.stack else s.stack? other := by
  rw [resume_of_cons suspended]
  cases other with
  | none => rfl
  | some other =>
      show (t.named.insert name t.machine.stack).find? other = _
      rw [Table.find?_insert, named]
      by_cases same : name = other
      · rw [if_pos same, if_pos (congrArg some same.symm)]
      · rw [if_neg same, if_neg (fun h => same (Option.some.inj h).symm), Table.find?_erase,
          if_neg same]
        rfl

/-! ## Nothing is left in the log -/

theorem quiet_act (c : Command) (quiet : s.log = []) : (s.act c).1.log = [] := by
  unfold act
  split
  · split
    · rfl
    · exact quiet
  · split
    · rfl
    · exact quiet
  · rfl
  · cases s.perform? c <;> rfl

theorem quiet_enterFrame (s : Session) (name : String) (manner : Manner) (expr : FrameExpr)
    (insist : Bool) : (s.enterFrame name manner expr insist).state.log = [] := by
  unfold enterFrame
  cases s.eval? expr with
  | none => rfl
  | some evaluated =>
      dsimp only
      split <;> rfl

theorem quiet_openBody (header : Section) (quiet : s.log = []) :
    (openBody header s).state.log = [] := by
  cases header with
  | enter expr insist forget => exact s.quiet_enterFrame _ _ expr insist
  | enterHidden expr insist => exact s.quiet_enterFrame _ _ expr insist
  | attempt => exact quiet
  | within name =>
      cases found : s.named.find? name with
      | none =>
          rw [openBody_within_none found]
          rfl
      | some stack =>
          rw [openBody_within_some found]
          exact quiet

/-- Every step takes along what was logged since the one before, so nothing is left over. -/
theorem trail_quiet (p : Script) (quiet : s.log = []) :
    ∀ t ∈ (p.run host.trailing { state := s }).1.states, t.log = [] := by
  refine trail_keeps (h := host) (P := fun u => u.log = []) p ?_ ?_ ?_ s quiet
  · exact fun c _ u quiet => quiet_act c quiet
  · exact fun header _ u quiet => quiet_openBody header quiet
  · intro header _ o u _
    cases header <;> rfl

/-- Where a run ends is one of the states that it passes. -/
theorem run_mem_trail (s : Session) (p : Script) :
    (s.run p).1 ∈ (p.run host.trailing { state := s }).1.states := by
  rw [show (s.run p).1 = (p.run host.trailing { state := s }).1.state from
    (congrArg Prod.fst (run_trailing host p { state := s })).symm]
  exact List.mem_cons_self

theorem run_quiet (p : Script) (quiet : s.log = []) : (s.run p).1.log = [] :=
  trail_quiet p quiet _ (s.run_mem_trail p)

/-! ## One turn -/

/-- Two sessions that are one as far as the stack `target` and the places `common` are
concerned. -/
structure Agree (target : Option String) (common : Place → Prop) (s t : Session) : Prop where
  registry : s.registry = t.registry
  quiet : s.log = [] ∧ t.log = []
  stack : s.stack? target = t.stack? target
  guards : target = none → s.machine.guards = t.machine.guards
  kept : ∀ place, common place → s.kept place = t.kept place

/-- What a turn leaves alone: the stacks it is not on, the guards on them, and the places that
its script does not write to. -/
structure Elsewhere (turn : Turn) (s : Session) (taken : Session × Report) : Prop where
  registry : taken.1.registry = s.registry
  suspended : taken.1.suspended = s.suspended
  stack : ∀ other, other ≠ turn.target → taken.1.stack? other = s.stack? other
  guards : turn.target ≠ none → taken.1.machine.guards = s.machine.guards
  kept : ∀ place, place ∉ turn.script.writes → taken.1.kept place = s.kept place
  forgotten : taken.1.machine.forgotten = taken.2.forgotten ++ s.machine.forgotten

section

variable {target : Option String} {common common' : Place → Prop}

theorem Agree.of_quiet (quiet : s.log = []) (target : Option String) (common : Place → Prop) :
    Agree target common s s :=
  ⟨rfl, ⟨quiet, quiet⟩, rfl, fun _ => rfl, fun _ _ => rfl⟩

theorem Agree.symm (h : Agree target common s t) : Agree target common t s :=
  ⟨h.registry.symm, h.quiet.symm, h.stack.symm, fun current => (h.guards current).symm,
    fun place there => (h.kept place there).symm⟩

theorem Agree.trans (h : Agree target common s t) (h' : Agree target common t u) :
    Agree target common s u :=
  ⟨h.registry.trans h'.registry, ⟨h.quiet.1, h'.quiet.2⟩, h.stack.trans h'.stack,
    fun current => (h.guards current).trans (h'.guards current),
    fun place there => (h.kept place there).trans (h'.kept place there)⟩

theorem Agree.mono (h : Agree target common s t) (less : ∀ place, common' place → common place) :
    Agree target common' s t :=
  ⟨h.registry, h.quiet, h.stack, h.guards, fun place there => h.kept place (less place there)⟩

/-- What is left alone by a turn looks as before. -/
theorem Elsewhere.agree {turn : Turn} {taken : Session × Report} (h : Elsewhere turn s taken)
    (quiet : s.log = []) (quiet' : taken.1.log = []) (different : turn.target ≠ target)
    (unwritten : ∀ place, common place → place ∉ turn.script.writes) :
    Agree target common taken.1 s where
  registry := h.registry
  quiet := ⟨quiet', quiet⟩
  stack := h.stack target (Ne.symm different)
  guards current := h.guards (fun none => different (none.trans current.symm))
  kept place there := h.kept place (unwritten place there)

end

section

variable {written : Place → Prop} {stack : Stack Frame} {o : Outcome} {added : List Step}
  {lost : List Frame}

/-- A turn on a stack in the table, told by how its script ended on that stack. -/
theorem turn_within (found : s.named.find? name = some stack)
    (ended : (s.suspendFor name stack).run p = (u, o))
    (since : Since written (s.suspendFor name stack) u)
    (steps : u.steps.toList = s.steps.toList ++ added) (forgotten : u.machine.forgotten = lost) :
    s.turn { target := some name, script := p }
      = ((u.resume name).step "end_with" .nothing,
          { target := some name
            shown := added.map Step.told ++ [("end_with", .nothing, u.log)]
            outcome := o
            forgotten := lost }) := by
  have whole := run_within_some (p := p) found
  rw [ended] at whole
  -- the stack that is current again shows in this step, and is not told of
  let last : Step :=
    { name := "end_with", result := .nothing, depth := (u.resume name).machine.stack.depth
      top := (List.range Step.shown).filterMap (u.resume name).machine.stack.frame?
      events := (u.resume name).log }
  have taken := @turn_eq s _ ⟨some name, p⟩ o (added ++ [last]) lost whole ?_ ?_
  · rw [taken, List.map_append, ← u.log_resume name]
    rfl
  · show ((u.resume name).steps.push last).toList = _
    rw [Array.toList_push, u.steps_resume, steps, List.append_assoc]
  · show (u.resume name).machine.forgotten = _
    rw [resume_of_cons since.suspended, ← forgotten]
    rfl

theorem elsewhere_within (found : s.named.find? name = some stack)
    (ended : (s.suspendFor name stack).run p = (u, o))
    (since : Since (· ∈ p.writes) (s.suspendFor name stack) u)
    (steps : u.steps.toList = s.steps.toList ++ added) (forgotten : u.machine.forgotten = lost) :
    Elsewhere { target := some name, script := p } s
      (s.turn { target := some name, script := p }) := by
  have resumed := @resume_of_cons u name _ _ since.suspended
  rw [turn_within found ended since steps forgotten]
  refine ⟨?_, ?_, fun other different => ?_, fun _ => ?_, fun place outside => ?_, ?_⟩
  · exact (registry_resume u name).trans since.registry
  · show (u.resume name).suspended = _
    rw [resumed]
    rfl
  · exact (stack?_resume since.suspended since.named other).trans (if_neg different)
  · show (u.resume name).machine.guards = _
    rw [resumed]
    rfl
  · exact (kept_resume u name place).trans (since.kept place outside)
  · show (u.resume name).machine.forgotten = _
    rw [resumed, ← forgotten]
    rfl

end

/-- Two sessions take a turn alike: it comes to the same, they go on agreeing, and the first
leaves everything else alone. -/
structure TurnAlike (common : Place → Prop) (turn : Turn) (s t : Session) : Prop where
  agree : Agree turn.target common (s.turn turn).1 (t.turn turn).1
  report : (s.turn turn).2 = (t.turn turn).2
  elsewhere : Elsewhere turn s (s.turn turn)

section

variable {common : Place → Prop}

theorem turnAlike_current (stays : p.Stays) (mentions : ∀ place ∈ p.mentions, common place)
    (h : Agree none common s t) : TurnAlike common { target := none, script := p } s t := by
  have side : EndsAlike (Alongside common (· ∈ p.writes) s t) (s.run p) (t.run p) :=
    run_alongside stays mentions (fun _ hp => hp)
      (.begin h.registry (h.quiet.1.trans h.quiet.2.symm) h.kept (Option.some.inj h.stack)
        (h.guards rfl))
  have quiet : (s.run p).1.log = [] ∧ (t.run p).1.log = [] :=
    ⟨run_quiet p h.quiet.1, run_quiet p h.quiet.2⟩
  generalize hs : s.run p = x at side quiet
  generalize ht : t.run p = y at side quiet
  obtain ⟨u, o⟩ := x
  obtain ⟨v, o'⟩ := y
  obtain ⟨side, rfl⟩ := side
  obtain ⟨added, us, vs⟩ := side.steps
  obtain ⟨m, um, vm⟩ := side.machine
  have here := @turn_eq s _ ⟨none, p⟩ _ _ _ hs us (congrArg Machine.forgotten um)
  have there := @turn_eq t _ ⟨none, p⟩ _ _ _ ht vs (congrArg Machine.forgotten vm)
  refine ⟨?_, ?_, ?_⟩
  · rw [here, there]
    exact ⟨side.registry, quiet, congrArg some side.stack, fun _ => side.guards, side.kept⟩
  · rw [here, there]
  · rw [here]
    refine ⟨side.left.registry, side.left.suspended, ?_, fun same => absurd rfl same,
      side.left.kept, congrArg Machine.forgotten um⟩
    rintro (_ | other) different
    · exact absurd rfl different
    · exact congrArg (·.find? other) side.left.named

/-- A turn on a stack that is not there is turned away. -/
theorem turnAlike_unknown (unknown : t.named.find? name = none)
    (h : Agree (some name) common s t) :
    TurnAlike common { target := some name, script := p } s t := by
  have known : s.named.find? name = t.named.find? name := h.stack
  have hs := run_within_none (p := p) (known.trans unknown)
  have ht := run_within_none (p := p) unknown
  have here := @turn_eq s _ ⟨some name, p⟩ _ _ [] hs Array.toList_push rfl
  have there := @turn_eq t _ ⟨some name, p⟩ _ _ [] ht Array.toList_push rfl
  refine ⟨?_, ?_, ?_⟩
  · rw [here, there]
    exact ⟨h.registry, ⟨rfl, rfl⟩, h.stack, h.guards, h.kept⟩
  · rw [here, there]
    simp only [List.map_cons, List.map_nil, Step.told, h.quiet.1, h.quiet.2]
  · rw [here]
    exact ⟨rfl, rfl, fun _ _ => rfl, fun _ => rfl, fun _ _ => rfl, rfl⟩

theorem turnAlike_within {stack : Stack Frame} (found : t.named.find? name = some stack)
    (stays : p.Stays) (mentions : ∀ place ∈ p.mentions, common place)
    (h : Agree (some name) common s t) :
    TurnAlike common { target := some name, script := p } s t := by
  have known : s.named.find? name = some stack :=
    (show s.named.find? name = t.named.find? name from h.stack).trans found
  -- inside, the sessions differ in what waits and in the table only
  have side : EndsAlike
      (Alongside common (· ∈ p.writes) (s.suspendFor name stack) (t.suspendFor name stack))
      ((s.suspendFor name stack).run p) ((t.suspendFor name stack).run p) :=
    run_alongside stays mentions (fun _ hp => hp)
      (.begin h.registry (h.quiet.1.trans h.quiet.2.symm) h.kept rfl rfl)
  generalize hs : (s.suspendFor name stack).run p = x at side
  generalize ht : (t.suspendFor name stack).run p = y at side
  obtain ⟨u, o⟩ := x
  obtain ⟨v, o'⟩ := y
  obtain ⟨side, rfl⟩ := side
  obtain ⟨added, us, vs⟩ := side.steps
  obtain ⟨m, um, vm⟩ := side.machine
  have lost : u.machine.forgotten = m.forgotten :=
    (congrArg Machine.forgotten um).trans (List.append_nil _)
  have lost' : v.machine.forgotten = m.forgotten :=
    (congrArg Machine.forgotten vm).trans (List.append_nil _)
  have here := turn_within known hs side.left us lost
  have there := turn_within found ht side.right vs lost'
  refine ⟨?_, ?_, elsewhere_within known hs side.left us lost⟩
  · rw [here, there]
    refine ⟨?_, ⟨rfl, rfl⟩, ?_, nofun, fun place there => ?_⟩
    · exact (registry_resume u name).trans (side.registry.trans (registry_resume v name).symm)
    · have mine := stack?_resume side.left.suspended side.left.named (some name)
      have theirs := stack?_resume side.right.suspended side.right.named (some name)
      rw [if_pos rfl] at mine theirs
      exact mine.trans ((congrArg some side.stack).trans theirs.symm)
    · exact (kept_resume u name place).trans
        ((side.kept place there).trans (kept_resume v name place).symm)
  · rw [here, there, side.log]

/-- **One turn.** In sessions that agree on the stack that the turn is on, it comes to the same
and they go on agreeing; and everything else in them is left alone. -/
theorem turn_alike {turn : Turn} (stays : turn.script.Stays)
    (mentions : ∀ place ∈ turn.script.mentions, common place)
    (h : Agree turn.target common s t) : TurnAlike common turn s t := by
  obtain ⟨target, p⟩ := turn
  cases target with
  | none => exact turnAlike_current stays mentions h
  | some name =>
      cases found : t.named.find? name with
      | none => exact turnAlike_unknown found h
      | some stack => exact turnAlike_within found stays mentions h

end

/-! ## Many turns -/

theorem turn_elsewhere {turn : Turn} (stays : turn.script.Stays) (quiet : s.log = []) :
    Elsewhere turn s (s.turn turn) :=
  (turn_alike stays (fun _ _ => trivial) (.of_quiet quiet turn.target (fun _ => True))).elsewhere

/-- **What a stack sees of many turns is what it sees of its own,** if no other turn writes to a
place that matters to these. -/
theorem turns_alike {target : Option String} {common : Place → Prop} (turns : List Turn)
    (stays : ∀ turn ∈ turns, turn.script.Stays)
    (own : ∀ turn ∈ turns, turn.target = target → ∀ place ∈ turn.script.mentions, common place)
    (others : ∀ turn ∈ turns, turn.target ≠ target →
      ∀ place ∈ turn.script.writes, ¬ common place) :
    ∀ s t : Session, Agree target common s t →
      Agree target common (s.turns turns).1 (t.turns (turns.filter (·.isOn target))).1 ∧
        (s.turns turns).2.filter (·.isOn target)
          = (t.turns (turns.filter (·.isOn target))).2 := by
  induction turns with
  | nil => exact fun _ _ h => ⟨h, rfl⟩
  | cons turn rest ih =>
      intro s t h
      have later := ih (fun turn ht => stays turn (List.mem_cons_of_mem _ ht))
        (fun turn ht => own turn (List.mem_cons_of_mem _ ht))
        (fun turn ht => others turn (List.mem_cons_of_mem _ ht))
      have stays := stays turn List.mem_cons_self
      by_cases ours : turn.target = target
      · -- both sessions take the turn
        have isOn : turn.isOn target = true := decide_eq_true ours
        have reported : (s.turn turn).2.isOn target = true := decide_eq_true ours
        subst ours
        obtain ⟨agree, same, -⟩ := turn_alike stays (own turn List.mem_cons_self rfl) h
        obtain ⟨agree, reports⟩ := later _ _ agree
        rw [List.filter_cons_of_pos isOn]
        refine ⟨agree, ?_⟩
        show ((s.turn turn).2 :: ((s.turn turn).1.turns rest).2).filter _ = _
        rw [List.filter_cons_of_pos reported, reports, same]
        rfl
      · -- the turn is taken elsewhere
        have isNot : ¬ turn.isOn target = true := fun isOn => ours (of_decide_eq_true isOn)
        have unreported : ¬ (s.turn turn).2.isOn target = true := isNot
        have elsewhere := turn_elsewhere stays h.quiet.1
        have unmoved : Agree target common (s.turn turn).1 s :=
          elsewhere.agree h.quiet.1 (run_quiet _ h.quiet.1) ours
            (fun place matters written =>
              others turn List.mem_cons_self ours place written matters)
        obtain ⟨agree, reports⟩ := later _ _ (unmoved.trans h)
        rw [List.filter_cons_of_neg isNot]
        refine ⟨agree, ?_⟩
        show ((s.turn turn).2 :: ((s.turn turn).1.turns rest).2).filter _ = _
        rw [List.filter_cons_of_neg unreported, reports]

/-- What waits is not touched by turns, and what they forget adds up. -/
theorem turns_around (turns : List Turn) (stays : ∀ turn ∈ turns, turn.script.Stays) :
    ∀ {s : Session}, s.log = [] →
      (s.turns turns).1.suspended = s.suspended ∧
        (s.turns turns).1.machine.forgotten
          = (s.turns turns).2.reverse.flatMap Report.forgotten ++ s.machine.forgotten := by
  induction turns with
  | nil => exact fun _ => ⟨rfl, rfl⟩
  | cons turn rest ih =>
      intro s quiet
      have elsewhere := turn_elsewhere (stays turn List.mem_cons_self) quiet
      obtain ⟨suspended, forgotten⟩ := ih (fun turn ht => stays turn (List.mem_cons_of_mem _ ht))
        (run_quiet turn.whole quiet)
      refine ⟨suspended.trans elsewhere.suspended, forgotten.trans ?_⟩
      show _ ++ (s.turn turn).1.machine.forgotten = (_ :: _).reverse.flatMap _ ++ _
      rw [elsewhere.forgotten, List.reverse_cons, List.flatMap_append, List.flatMap_singleton,
        List.append_assoc]
      rfl

end Session

end CallPath
