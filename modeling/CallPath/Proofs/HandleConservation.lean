import CallPath.Proofs.Bookkeeping
import CallPath.Proofs.History

/-!
# Every handle is accounted for

A session runs scripts over any number of stacks, and everything in it holds handles: slots,
guards, lists that were handed out, variables. The ledger counts where a handle is made and
where one is given up, and looks at none of them. Yet at every point of every run, whatever
was refused and however bodies ended, it has the number of those who hold one
(`handles_conserved`). So no frame is freed while somebody holds it, and none stays when
nobody does. A guard that was forgotten is somebody, and one who never lets go.

A body on a stack of its own makes the argument more than an invariant of single steps. When
it is closed its stack goes back into the table and its machine is gone, guards and all. The
books only balance because there are no guards by then: what was opened inside was also closed
inside. That is what `trail_keeps_and_restores` is for.
-/

namespace CallPath

/-- Whether the guard of a body that returns is forgotten. -/
def Section.forgets : Section → Bool
  | .enter _ _ forget => forget
  | .enterHidden _ _ | .attempt | .within _ => false

namespace Session

variable {s t u : Session} {around : Surroundings} {hand : List Frame} {name : String}

/-! ## Who holds what -/

/-- What a session holds by its stacks, its live guards, its lists and its variables. -/
def possessions (s : Session) : List Frame :=
  (s.machine :: s.suspended).flatMap (fun m => m.stack.toList ++ m.guards.map Guard.frame) ++
    s.named.values.flatMap Stack.toList ++ s.lists.values.flatten ++ s.bound.values

/-- The frames whose guards were forgotten, a frame as often as that happened. -/
def forgotten (s : Session) : List Frame :=
  (s.machine :: s.suspended).flatMap Machine.forgotten

theorem count_handles (s : Session) (frame : Frame) :
    s.handles.count frame = s.possessions.count frame + s.forgotten.count frame := by
  have machines : ∀ machines : List (Machine Frame),
      (machines.flatMap Machine.handles).count frame
        = (machines.flatMap (fun m => m.stack.toList ++ m.guards.map Guard.frame)).count frame
          + (machines.flatMap Machine.forgotten).count frame := by
    intro machines
    induction machines with
    | nil => rfl
    | cons m rest ih =>
        simp only [List.flatMap_cons, List.count_append, Machine.handles] at ih ⊢
        omega
  have each := machines (s.machine :: s.suspended)
  simp only [handles, possessions, forgotten, List.flatMap_cons, List.count_append] at each ⊢
  omega

namespace Balanced

/-! ## Acts -/

theorem step (h : s.Balanced around hand) (name : String) (result : Result) :
    (s.step name result).Balanced around hand :=
  ⟨h.counted, h.accounts, h.named, h.lists, h.bound, h.around⟩

theorem note {x : Option (Result × Session)} (h : s.Balanced around hand)
    (performed : ∀ y, x = some y → y.2.Balanced around hand) (name : String) :
    (s.note name x).Balanced around hand := by
  cases x with
  | none => exact h.step name .rejected
  | some y => exact (performed y rfl).step name y.1

theorem act (h : s.Balanced around []) (c : Command) : (s.act c).1.Balanced around [] := by
  unfold Session.act
  split
  -- a stack that cannot be displayed leaves no step
  · split
    · exact h.step _ _
    · exact h
  · split
    · exact h.step _ _
    · exact h
  · exact h.step _ _
  · exact h.note (fun y performed => h.perform? performed) c.name

/-! ## Bodies -/

/-- An entry leaves a guard around the body, or leaves everything as it was. -/
theorem enterFrame (h : s.Balanced around []) (name : String) (manner : Manner)
    (expr : FrameExpr) (insist : Bool) :
    match s.enterFrame name manner expr insist with
    | .skipped t _ => t.Balanced around []
    | .opened t => ∃ guard, t.Balanced { around with guards := guard :: around.guards } [] := by
  unfold Session.enterFrame
  cases he : s.eval? expr with
  | none => exact h.step _ _
  | some evaluated =>
      obtain ⟨frame, u⟩ := evaluated
      have ready := h.eval? he
      have entered := ready.moved (u.machine.enter_conserves manner frame)
      rw [← ready.around] at entered ⊢
      dsimp only
      cases hr : u.machine.stack.limit.refusal? u.machine.stack.depth with
      | some limit =>
          rw [Machine.enter_refused hr] at entered ⊢
          exact entered.step _ _
      | none =>
          rw [Machine.enter_accepted hr] at entered ⊢
          exact ⟨_, entered.step _ _⟩

theorem leaveFrame (h : s.Balanced around []) (forget : Bool) (o : Outcome) :
    ∃ forgotten, (forget = false → forgotten = around.forgotten) ∧
      (s.leaveFrame forget o).1.Balanced
        { around with guards := around.guards.tail, forgotten } [] := by
  cases h.around
  have ready : s.Balanced s.surroundings ([] ++ []) := h
  let result : Result := .left o s.machine.stack.depth
  cases forget with
  | true =>
      have left := (ready.moved s.machine.forget_conserves).step "exit" result
      rw [Machine.guards_forget, Machine.answer_forget] at left
      exact ⟨_, nofun, left⟩
  | false =>
      have left := (ready.moved s.machine.leave_conserves).step "exit" result
      rw [Machine.guards_leave, Machine.answer_leave] at left
      exact ⟨_, fun _ => Machine.forgotten_leave s.machine, left⟩

/-- The stack that a body runs on leaves its table, and its machine has no guards. -/
theorem suspendFor {stack : Stack Frame} (h : s.Balanced around [])
    (found : s.named.find? name = some stack) :
    (s.suspendFor name stack).Balanced
      { guards := [], forgotten := [], suspended := s.machine :: s.suspended } [] := by
  have taken := h.dropStack found
  refine ⟨fun f => ?_, taken.accounts, taken.named, taken.lists, taken.bound, rfl⟩
  have total := taken.counted f
  simp only [holders, handles, Session.suspendFor, Machine.handles, List.map_nil,
    List.flatMap_cons, List.count_append, List.count_nil] at total ⊢
  omega

/-- A machine without guards can go: its stack goes back, and what was forgotten on it stays
forgotten. -/
theorem resume {forgotten : List Frame} {outer : Machine Frame} {rest : List (Machine Frame)}
    (h : s.Balanced { guards := [], forgotten, suspended := outer :: rest } []) (name : String) :
    (s.resume name).Balanced
      { guards := outer.guards, forgotten := forgotten ++ outer.forgotten, suspended := rest }
      [] := by
  have guards : s.machine.guards = [] := congrArg Surroundings.guards h.around
  have lost : s.machine.forgotten = forgotten := congrArg Surroundings.forgotten h.around
  have suspended : s.suspended = outer :: rest := congrArg Surroundings.suspended h.around
  have gone : Session.Balanced
      { s with
        machine := { outer with forgotten := s.machine.forgotten ++ outer.forgotten }
        suspended := rest }
      { guards := outer.guards, forgotten := forgotten ++ outer.forgotten, suspended := rest }
      (s.machine.stack.toList ++ []) := by
    refine ⟨fun f => ?_, h.accounts, h.named, h.lists, h.bound, ?_⟩
    · have total := h.counted f
      simp only [holders, handles, Machine.handles, guards, suspended, List.map_nil,
        List.flatMap_cons, List.count_append, List.count_nil] at total ⊢
      omega
    · rw [← lost]
      rfl
  unfold Session.resume
  rw [suspended]
  exact gone.store name

end Balanced

/-! ## What is opened is closed -/

/-- What a body finds around it and has to leave there. -/
def enclosing (s : Session) : List (Guard Frame) × List (Machine Frame) :=
  (s.machine.guards, s.suspended)

/-- Opening a body took `s` to `t`, and `close` gives back what `s` had around it, provided that
the body did the same to `t`. Unless it forgets a guard, it forgets nothing. -/
structure Brackets (s t : Session) (close : Session → Session) (forgets : Bool) : Prop where
  opened : t.Balanced t.surroundings []
  closed : ∀ u, u.Balanced u.surroundings [] → u.enclosing = t.enclosing →
    (close u).Balanced (close u).surroundings [] ∧ (close u).enclosing = s.enclosing ∧
      (forgets = false → (close u).forgotten = u.forgotten)
  forgotten : t.forgotten = s.forgotten

theorem Balanced.here (h : s.Balanced around hand) : s.Balanced s.surroundings hand := by
  cases h.around
  exact h

theorem forgotten_eq (s : Session) :
    s.forgotten = s.surroundings.forgotten ++ s.surroundings.suspended.flatMap Machine.forgotten :=
  List.flatMap_cons

theorem brackets_enter {manner : Manner} {expr : FrameExpr} {insist : Bool}
    (h : s.Balanced s.surroundings []) (opened : s.enterFrame name manner expr insist = .opened t)
    (forget : Bool) (o : Outcome) :
    Brackets s t (fun u => (u.leaveFrame forget o).1) forget := by
  have entered := h.enterFrame name manner expr insist
  rw [opened] at entered
  obtain ⟨guard, there⟩ := entered
  refine ⟨there.here, fun u hu same => ?_, ?_⟩
  · have guards : u.machine.guards = guard :: s.machine.guards :=
      (congrArg Prod.fst same).trans (congrArg Surroundings.guards there.around)
    have suspended : u.suspended = s.suspended :=
      (congrArg Prod.snd same).trans (congrArg Surroundings.suspended there.around)
    obtain ⟨forgotten, kept, left⟩ := hu.leaveFrame forget o
    refine ⟨left.here, ?_, fun remember => ?_⟩
    · have popped : (u.leaveFrame forget o).1.machine.guards = u.machine.guards.tail :=
        congrArg Surroundings.guards left.around
      have waiting : (u.leaveFrame forget o).1.suspended = u.suspended :=
        congrArg Surroundings.suspended left.around
      rw [guards] at popped
      exact Prod.ext popped (waiting.trans suspended)
    · rw [forgotten_eq, left.around, forgotten_eq, kept remember]
  · rw [forgotten_eq, there.around, forgotten_eq]

theorem brackets_within {stack : Stack Frame} (h : s.Balanced s.surroundings [])
    (found : s.named.find? name = some stack) :
    Brackets s (s.suspendFor name stack) (fun u => (u.resume name).step "end_with" .nothing)
      false := by
  have there := h.suspendFor found
  refine ⟨there.here, fun u hu same => ?_, ?_⟩
  · -- the guards of the inner machine would be lost, but there are none
    have guards : u.machine.guards = [] := congrArg Prod.fst same
    have suspended : u.suspended = s.machine :: s.suspended := congrArg Prod.snd same
    have inside : u.Balanced
        { guards := [], forgotten := u.machine.forgotten, suspended := s.machine :: s.suspended }
        [] := by
      rw [← guards, ← suspended]
      exact hu
    have back := (inside.resume name).step "end_with" .nothing
    refine ⟨back.here, ?_, fun _ => ?_⟩
    · exact Prod.ext (congrArg Surroundings.guards back.around)
        (congrArg Surroundings.suspended back.around)
    · rw [forgotten_eq, back.around, forgotten, suspended]
      simp
  · rw [forgotten_eq, there.around, forgotten]
    rfl

theorem openBody_within_none (h : s.named.find? name = none) :
    openBody (.within name) s = .skipped (s.step "with" .rejected) .returned := by
  simp only [openBody, h, Section.name]

theorem openBody_within_some {stack : Stack Frame} (h : s.named.find? name = some stack) :
    openBody (.within name) s = .opened (s.suspendFor name stack) := by
  simp only [openBody, h]

theorem brackets_openBody {header : Section} (h : s.Balanced s.surroundings [])
    (opened : openBody header s = .opened t) (o : Outcome) :
    Brackets s t (fun u => (closeBody header o u).1) header.forgets := by
  cases header with
  | enter expr insist forget =>
      have guarded := brackets_enter h opened (forget && o = .returned) o
      refine ⟨guarded.opened, fun u hu same => ?_, guarded.forgotten⟩
      obtain ⟨balanced, back, kept⟩ := guarded.closed u hu same
      refine ⟨balanced, back, fun remember => kept ?_⟩
      rw [show forget = false from remember, Bool.false_and]
  | enterHidden expr insist => exact brackets_enter h opened false o
  | attempt =>
      cases opened
      exact ⟨h, fun u hu same => ⟨(hu.step _ _).here, same, fun _ => rfl⟩, rfl⟩
  | within name =>
      cases found : s.named.find? name with
      | none =>
          rw [openBody_within_none found] at opened
          cases opened
      | some stack =>
          rw [openBody_within_some found] at opened
          cases opened
          exact brackets_within h found

/-- A body that is skipped leaves everything around it alone. -/
theorem Balanced.skipBody {header : Section} {o : Outcome} (h : s.Balanced around [])
    (skipped : openBody header s = .skipped t o) : t.Balanced around [] := by
  cases header with
  | enter expr insist forget =>
      have kept := h.enterFrame "enter" .reachable expr insist
      rwa [show s.enterFrame "enter" .reachable expr insist = _ from skipped] at kept
  | enterHidden expr insist =>
      have kept := h.enterFrame "scoped" .hidden expr insist
      rwa [show s.enterFrame "scoped" .hidden expr insist = _ from skipped] at kept
  | attempt => cases skipped
  | within name =>
      cases found : s.named.find? name with
      | none =>
          rw [openBody_within_none found] at skipped
          cases skipped
          exact h.step _ _
      | some stack =>
          rw [openBody_within_some found] at skipped
          cases skipped

/-! ## Whole sessions -/

theorem start_balanced {expr : StackExpr} (begun : start? expr = some s) :
    s.Balanced { guards := [], forgotten := [], suspended := [] } [] := by
  have empty : Session.Balanced {} { guards := [], forgotten := [], suspended := [] } [] :=
    { counted := by
        intro f
        cases f <;> rfl
      accounts := rfl
      named := Table.distinct_empty
      lists := Table.distinct_empty
      bound := Table.distinct_empty
      around := rfl }
  obtain ⟨⟨stack, u⟩, built, same⟩ := Option.map_eq_some_iff.mp begun
  cases same
  exact (Balanced.ask (.replace stack) none (empty.build? built)).step _ _

/-- **The books balance all along a run,** what was forgotten stays so, and the run ends with
the guards and waiting machines that it began with. -/
theorem run_balanced (h : s.Balanced s.surroundings []) (script : Script) :
    (∀ t ∈ (script.run host.trailing { state := s }).1.states, t.Balanced t.surroundings [] ∧
      ((∀ header ∈ script.blocks, header.forgets = false) → t.forgotten = s.forgotten)) ∧
    (s.run script).1.enclosing = s.enclosing := by
  have same : ∀ {t u : Session}, t.Balanced u.surroundings [] →
      t.forgotten = u.forgotten ∧ t.enclosing = u.enclosing := by
    intro t u ht
    refine ⟨?_, congrArg (fun around => (around.guards, around.suspended)) ht.around⟩
    rw [forgotten_eq, ht.around, forgotten_eq]
  refine trail_keeps_and_restores (h := host) (f := enclosing)
    (P := fun t => t.Balanced t.surroundings [] ∧
      ((∀ header ∈ script.blocks, header.forgets = false) → t.forgotten = s.forgotten))
    script ?_ ?_ ?_ s ⟨h, fun _ => rfl⟩
  · rintro c - t ⟨balanced, lost⟩
    have after := balanced.act c
    exact ⟨⟨after.here, fun remember => (same after).1.trans (lost remember)⟩, (same after).2⟩
  · rintro header - t u o ⟨balanced, lost⟩ skipped
    have after := balanced.skipBody skipped
    exact ⟨⟨after.here, fun remember => (same after).1.trans (lost remember)⟩, (same after).2⟩
  · rintro header hb t u ⟨balanced, lost⟩ opened
    have brackets := brackets_openBody balanced opened
    refine ⟨⟨(brackets .returned).opened, fun remember => ?_⟩, ?_⟩
    · exact (brackets .returned).forgotten.trans (lost remember)
    · rintro o v ⟨inside, lost⟩ around
      obtain ⟨closed, back, kept⟩ := (brackets o).closed v inside around
      exact ⟨⟨closed, fun remember => (kept (remember header hb)).trans (lost remember)⟩, back⟩

/-! ## What balanced books mean -/

theorem Balanced.count_eq (h : s.Balanced around []) (frame : Frame) :
    s.ledger.count frame = s.holders frame := by
  rw [h.counted, List.count_nil, Nat.add_zero]

theorem Balanced.count_eq_zero (h : s.Balanced around []) (frame : Frame) :
    s.ledger.count frame = 0 ↔ frame ∉ s.handles ∧ frame ≠ .native := by
  rw [h.count_eq, holders, Nat.add_eq_zero_iff, List.count_eq_zero]
  simp

/-- What is left when everything but the forgotten guards is gone. -/
theorem Balanced.count_release (h : s.Balanced around []) (frame : Frame) :
    (s.release s.possessions).ledger.count frame
      = s.forgotten.count frame + if frame = .native then 1 else 0 := by
  show (s.ledger.releaseAll s.possessions).count frame = _
  rw [Ledger.count_releaseAll, h.count_eq, holders, count_handles]
  omega

end Session

/-- **Every handle is accounted for.** Begin a session and run any script. After every command,
every opening and every closing of a body, and for every frame: the ledger has the number of
those who hold a handle to the frame, and one more for the sentinel, whose owner has it. So the
frame is gone exactly if nobody holds it. Once everything else is given up, the handles that
are left are those of the guards on it that were forgotten, of which there are none if the
script forgets none. In the end nothing is entered any more and no machine waits, so that all
these handles are with the one stack, the tables and the forgotten guards. -/
theorem handles_conserved {expr : StackExpr} {start : Session}
    (begun : Session.start? expr = some start) (script : Script) :
    let ended := script.run Session.host.trailing { state := start }
    (ended.1.state, ended.2) = start.run script ∧
    (∀ s ∈ ended.1.states, ∀ frame,
      s.ledger.count frame = s.holders frame ∧
      (s.ledger.count frame = 0 ↔ frame ∉ s.handles ∧ frame ≠ .native) ∧
      (s.release s.possessions).ledger.count frame
        = s.forgotten.count frame + if frame = .native then 1 else 0) ∧
    ((∀ header ∈ script.blocks, header.forgets = false) →
      ∀ s ∈ ended.1.states, s.forgotten = []) ∧
    ended.1.state.enclosing = ([], []) := by
  intro ended
  have begun := Session.start_balanced begun
  have nothing : start.forgotten = [] := by
    rw [Session.forgotten_eq, begun.around]
    rfl
  have states : (ended.1.state, ended.2) = start.run script :=
    run_trailing Session.host script { state := start }
  obtain ⟨all, back⟩ := Session.run_balanced begun.here script
  refine ⟨states, fun s hs frame => ?_, fun remember s hs => ?_, ?_⟩
  · have balanced := (all s hs).1
    exact ⟨balanced.count_eq frame, balanced.count_eq_zero frame, balanced.count_release frame⟩
  · rw [(all s hs).2 remember, nothing]
  · rw [show ended.1.state = (start.run script).1 from congrArg Prod.fst states, back]
    exact congrArg (fun around => (around.guards, around.suspended)) begun.around

/-- A body that clears the stack it runs on, after its frames were listed, and whose guard is
forgotten. -/
def hoarding : Script :=
  .block (.enter (.fresh "f" false) false true)
    (.act (.list (some "frames")) <|
      .act .clear .done)
    (.act (.pop none) .done)

theorem handles_conserved_of_hoarding :
    ∃ start, Session.start? (.empty {}) = some start ∧
      let s := (start.run hoarding).1
      s.ledger.count (.numbered 0) = 2 ∧ s.lists.values = [[.numbered 0]] ∧
        (s.release s.possessions).ledger.count (.numbered 0) = 1 := by
  obtain ⟨start, begun⟩ : ∃ start, Session.start? (.empty {}) = some start := ⟨_, rfl⟩
  refine ⟨start, begun, ?_⟩
  obtain ⟨states, counted, -⟩ := handles_conserved begun hoarding
  have books := counted _ List.mem_cons_self (.numbered 0)
  rw [show (hoarding.run Session.host.trailing { state := start }).1.state
    = (start.run hoarding).1 from congrArg Prod.fst states] at books
  obtain ⟨held, -, lost⟩ := books
  cases begun
  intro s
  rw [held, lost]
  decide

end CallPath
