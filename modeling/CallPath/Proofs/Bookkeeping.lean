import CallPath.Proofs.HandleFlow
import CallPath.Session.Run

/-!
# The books of a session

The ledger of a session never looks at who holds a handle, and the holders never look at the
ledger. That the two agree is shown function by function. In the middle of a command some
handles are on their way: an expression has made one that is not on a stack yet, or a call has
handed one over that no variable holds yet. These are at the hand of the command, so the books
balance if for every frame the ledger has the number of its holders and of the handles at hand
(`Session.Balanced`). Each function says which handles it takes from there and which it puts
there; a command begins with none and ends with none.

A session with balanced books says one more thing. Commands work on the current stack, and the
guards on it and the machines that wait are none of their business; they find these again as
they left them.
-/

namespace CallPath

/-- What is around the current stack of a session. -/
structure Surroundings where
  guards : List (Guard Frame)
  forgotten : List Frame
  suspended : List (Machine Frame)

theorem Machine.mem_handles_of_guard? {m : Machine Frame} {guard : Guard Frame}
    (h : m.guard? = some guard) : guard.frame ∈ m.handles := by
  have live : guard ∈ m.guards := List.mem_of_head? (Option.filter_eq_some_iff.mp h).1
  exact List.mem_append_left _ (List.mem_append_right _ (List.mem_map_of_mem live))

namespace Session

def surroundings (s : Session) : Surroundings :=
  { guards := s.machine.guards, forgotten := s.machine.forgotten, suspended := s.suspended }

/-- The books balance, with the handles `hand` on their way and `around` around the current
stack. -/
structure Balanced (s : Session) (around : Surroundings) (hand : List Frame) : Prop where
  counted : ∀ frame, s.ledger.count frame = s.holders frame + hand.count frame
  /-- Every frame that was created has an account. -/
  accounts : s.ledger.counts.size = s.registry.scopes.size
  named : s.named.Distinct
  lists : s.lists.Distinct
  bound : s.bound.Distinct
  around : s.surroundings = around

variable {s t : Session} {around : Surroundings} {hand frames : List Frame} {frame : Frame}
  {name : String}

theorem machine_createForCalls (s : Session) (name : String) (n count : Nat) :
    (s.createForCalls name n count).machine = s.machine := by
  induction count generalizing s n with
  | zero => rfl
  | succ count ih => exact ih _ _

theorem mem_handles_of_machine (h : frame ∈ s.machine.handles) : frame ∈ s.handles :=
  List.mem_append_left _ (List.mem_append_left _ (List.mem_append_left _
    (List.mem_append_left _ h)))

theorem mem_handles_of_bound (h : frame ∈ s.bound.values) : frame ∈ s.handles :=
  List.mem_append_right _ h

theorem mem_handles_of_named {stack : Stack Frame} (found : s.named.find? name = some stack)
    (h : frame ∈ stack.toList) : frame ∈ s.handles := by
  have there : frame ∈ s.named.values.flatMap Stack.toList :=
    List.mem_flatMap.mpr ⟨stack, Table.mem_values_of_find? found, h⟩
  exact List.mem_append_left _ (List.mem_append_left _ (List.mem_append_right _ there))

namespace Balanced

/-! ## Handles come and go -/

theorem reorder {hand' : List Frame} (h : s.Balanced around hand) (same : hand.Perm hand') :
    s.Balanced around hand' where
  counted f := by rw [h.counted, same.count_eq]
  accounts := h.accounts
  named := h.named
  lists := h.lists
  bound := h.bound
  around := h.around

/-- Whoever has a handle is on the books. -/
theorem live (h : s.Balanced around hand) (held : frame = .native ∨ frame ∈ s.handles ++ hand) :
    0 < s.ledger.count frame := by
  rw [h.counted, holders]
  rcases held with rfl | held
  · rw [if_pos rfl]
    omega
  · have there := List.count_pos_iff.mpr held
    rw [List.count_append] at there
    omega

theorem retain (h : s.Balanced around hand)
    (held : ∀ frame ∈ frames, frame = .native ∨ frame ∈ s.handles ++ hand) :
    (s.retain frames).Balanced around (frames ++ hand) where
  counted f := by
    show (s.ledger.retainAll frames).count f = s.holders f + _
    rw [Ledger.count_retainAll (fun frame hf => h.live (held frame hf)), h.counted,
      List.count_append]
    omega
  accounts := (s.ledger.size_retainAll frames).trans h.accounts
  named := h.named
  lists := h.lists
  bound := h.bound
  around := h.around

theorem release (h : s.Balanced around (frames ++ hand)) :
    (s.release frames).Balanced around hand where
  counted f := by
    show (s.ledger.releaseAll frames).count f = s.holders f + _
    rw [Ledger.count_releaseAll, h.counted, List.count_append]
    omega
  accounts := (s.ledger.size_releaseAll frames).trans h.accounts
  named := h.named
  lists := h.lists
  bound := h.bound
  around := h.around

/-- A frame that is created has one handle, and nobody had one before. -/
theorem create (h : s.Balanced around hand) (name : String) (mute : Bool) :
    (s.create name mute).2.Balanced around ((s.create name mute).1 :: hand) where
  counted f := by
    show s.ledger.openAccount.count f = s.holders f + _
    rw [Ledger.count_openAccount, h.counted, h.accounts, List.count_cons]
    simp only [Session.create, Registry.upcoming, beq_iff_eq]
    omega
  accounts := by
    show (s.ledger.counts.push 1).size = (s.registry.scopes.push _).size
    rw [Array.size_push, Array.size_push, h.accounts]
  named := h.named
  lists := h.lists
  bound := h.bound
  around := h.around

/-- What a frame carries has no part in the books. -/
theorem define (h : s.Balanced around hand) (frame : Frame) (ident : String) (value : Int) :
    Session.Balanced { s with registry := s.registry.define frame ident value } around hand where
  counted := h.counted
  accounts := by
    rw [h.accounts]
    cases frame <;> simp [Registry.define]
  named := h.named
  lists := h.lists
  bound := h.bound
  around := h.around

/-- A transition of the machine that conserves handles keeps the books balanced. -/
theorem moved {transition : Transition Frame} {given : List Frame}
    (h : s.Balanced around (given ++ hand)) (conserves : transition.Conserves s.machine given) :
    (s.moved transition).Balanced
      { around with
        guards := transition.machine.guards, forgotten := transition.machine.forgotten }
      (transition.answer.kept ++ hand) := by
  have held : ∀ f ∈ transition.effect.cloned,
      f = .native ∨ f ∈ s.handles ++ (given ++ hand) := by
    intro f hf
    refine (conserves.made f hf).imp_right (fun there => ?_)
    rcases List.mem_append.mp there with there | there
    · exact List.mem_append_left _ (mem_handles_of_machine there)
    · exact List.mem_append_right _ (List.mem_append_left _ there)
  have made := h.retain held
  have settled : Session.Balanced
      { s.retain transition.effect.cloned with
        machine := transition.machine, log := s.log ++ transition.effect.events }
      { around with
        guards := transition.machine.guards, forgotten := transition.machine.forgotten }
      (transition.effect.dropped ++ (transition.answer.kept ++ hand)) :=
    { counted := by
        intro f
        have total := made.counted f
        have same := conserves.handles.count_eq f
        simp only [holders, handles, List.count_append] at total same ⊢
        have machine : (s.retain transition.effect.cloned).machine = s.machine := rfl
        rw [machine] at total
        omega
      accounts := made.accounts
      named := made.named
      lists := made.lists
      bound := made.bound
      around := by rw [← h.around]; rfl }
  exact settled.release

theorem call (c : Call Frame) (h : s.Balanced around (c.given ++ hand)) :
    (s.call c).2.Balanced around ((s.call c).1.kept ++ hand) := by
  have moved := h.moved (s.machine.step_conserves (.call c))
  rwa [← h.around] at moved ⊢

/-! ## What tables hold -/

theorem bind (h : s.Balanced around (frame :: hand)) (name : String) :
    Session.Balanced { s with bound := s.bound.insert name frame } around
      ((s.bound.find? name).toList ++ hand) where
  counted f := by
    have total := h.counted f
    have values := (h.bound.perm_values name).count_eq f
    simp only [holders, handles, Table.values_insert, List.count_append, List.count_cons]
      at total values ⊢
    omega
  accounts := h.accounts
  named := h.named
  lists := h.lists
  bound := h.bound.insert name frame
  around := h.around

theorem unbind (h : s.Balanced around hand) (found : s.bound.find? name = some frame) :
    Session.Balanced { s with bound := s.bound.erase name } around ([frame] ++ hand) where
  counted f := by
    have total := h.counted f
    have values := (h.bound.perm_values name).count_eq f
    rw [found] at values
    simp only [holders, handles, Option.toList_some, List.count_append] at total values ⊢
    omega
  accounts := h.accounts
  named := h.named
  lists := h.lists
  bound := h.bound.erase name
  around := h.around

theorem hold (h : s.Balanced around (frame :: hand)) (name : String) :
    (s.hold name frame).Balanced around hand :=
  (h.bind name).release

theorem saveList (h : s.Balanced around (frames ++ hand)) (name : String) :
    (s.saveList name frames).Balanced around hand := by
  have saved : Session.Balanced { s with lists := s.lists.insert name frames } around
      ((s.lists.find? name).getD [] ++ hand) :=
    { counted := by
        intro f
        have total := h.counted f
        have values := (h.lists.perm_values name).flatten.count_eq f
        have found : (s.lists.find? name).getD [] = (s.lists.find? name).toList.flatten := by
          cases s.lists.find? name <;> simp
        simp only [holders, handles, Table.values_insert, List.flatten_append, List.flatten_cons,
          List.count_append, found] at total values ⊢
        omega
      accounts := h.accounts
      named := h.named
      lists := h.lists.insert name frames
      bound := h.bound
      around := h.around }
  exact saved.release

theorem dropList (h : s.Balanced around hand) (found : s.lists.find? name = some frames) :
    Session.Balanced { s with lists := s.lists.erase name } around (frames ++ hand) where
  counted f := by
    have total := h.counted f
    have values := (h.lists.perm_values name).flatten.count_eq f
    rw [found] at values
    simp only [holders, handles, Option.toList_some, List.flatten_append, List.flatten_cons,
      List.flatten_nil, List.count_append, List.count_nil] at total values ⊢
    omega
  accounts := h.accounts
  named := h.named
  lists := h.lists.erase name
  bound := h.bound
  around := h.around

theorem store {stack : Stack Frame} (h : s.Balanced around (stack.toList ++ hand))
    (name : String) : (s.store name stack).Balanced around hand := by
  have stored : Session.Balanced { s with named := s.named.insert name stack } around
      (((s.named.find? name).map Stack.toList).getD [] ++ hand) :=
    { counted := by
        intro f
        have total := h.counted f
        have values := ((h.named.perm_values name).flatMap_right Stack.toList).count_eq f
        have found : ((s.named.find? name).map Stack.toList).getD []
            = (s.named.find? name).toList.flatMap Stack.toList := by
          cases s.named.find? name <;> simp
        simp only [holders, handles, Table.values_insert, List.flatMap_append, List.flatMap_cons,
          List.count_append, found] at total values ⊢
        omega
      accounts := h.accounts
      named := h.named.insert name stack
      lists := h.lists
      bound := h.bound
      around := h.around }
  exact stored.release

theorem dropStack {stack : Stack Frame} (h : s.Balanced around hand)
    (found : s.named.find? name = some stack) :
    Session.Balanced { s with named := s.named.erase name } around (stack.toList ++ hand) where
  counted f := by
    have total := h.counted f
    have values := ((h.named.perm_values name).flatMap_right Stack.toList).count_eq f
    rw [found] at values
    simp only [holders, handles, Option.toList_some, List.flatMap_append, List.flatMap_cons,
      List.flatMap_nil, List.count_append, List.count_nil] at total values ⊢
    omega
  accounts := h.accounts
  named := h.named.erase name
  lists := h.lists
  bound := h.bound
  around := h.around

/-! ## Expressions -/

/-- An expression puts one handle at hand. -/
theorem eval? {expr : FrameExpr} (h : s.Balanced around hand)
    (evaluated : s.eval? expr = some (frame, t)) : t.Balanced around (frame :: hand) := by
  cases expr with
  | held name =>
      obtain ⟨f, found, same⟩ := Option.map_eq_some_iff.mp evaluated
      cases same
      refine h.retain (fun g hg => .inr (List.mem_append_left _ (mem_handles_of_bound ?_)))
      rw [List.mem_singleton.mp hg]
      exact Table.mem_values_of_find? found
  | fresh name mute =>
      cases evaluated
      exact h.create name mute
  | level level =>
      cases evaluated
      exact Balanced.call (.get level) h
  | native =>
      cases evaluated
      exact h.retain (fun g hg => .inl (List.mem_singleton.mp hg))
  | pushed =>
      obtain ⟨guard, found, same⟩ := Option.map_eq_some_iff.mp evaluated
      cases same
      refine h.retain (fun g hg => .inr (List.mem_append_left _ (mem_handles_of_machine ?_)))
      rw [List.mem_singleton.mp hg]
      exact Machine.mem_handles_of_guard? found

theorem build? {expr : StackExpr} {stack : Stack Frame} (h : s.Balanced around hand)
    (built : s.build? expr = some (stack, t)) : t.Balanced around (stack.toList ++ hand) := by
  cases expr with
  | empty limit =>
      cases built
      exact h
  | seeded expr =>
      obtain ⟨⟨frame, u⟩, evaluated, same⟩ := Option.map_eq_some_iff.mp built
      cases same
      have made := h.eval? evaluated
      exact ⟨made.counted, made.accounts, made.named, made.lists, made.bound, made.around⟩

/-! ## Commands -/

/-- What an answer hands over is kept under a name, or given up. -/
theorem conclude {answer : Answer Frame} (h : s.Balanced around (answer.kept ++ hand))
    (save : Option String) : (s.conclude save answer).2.Balanced around hand := by
  cases answer with
  | frame frame =>
      cases save with
      | none => exact h.release
      | some name => exact h.hold name
  | frames frames =>
      cases save with
      | none => exact h.release
      | some name => exact h.saveList name
  | stack stack =>
      cases save with
      | none => exact h.release
      | some name => exact h.store name
  | _ => exact h

theorem ask (c : Call Frame) (save : Option String) (h : s.Balanced around (c.given ++ hand)) :
    (s.ask c save).2.Balanced around hand :=
  (Balanced.call c h).conclude save

theorem holdClone (h : s.Balanced around (frame :: hand)) (save : Option String) :
    (s.holdClone save frame).Balanced around (frame :: hand) := by
  cases save with
  | none => exact h
  | some name =>
      have cloned : (s.retain [frame]).Balanced around ([frame] ++ frame :: hand) :=
        h.retain (fun g hg => .inr (by simp [List.mem_singleton.mp hg]))
      exact cloned.hold name

theorem pushFresh (name : String) (n : Nat) : ∀ (i : Nat) {s : Session},
    s.Balanced around hand → (s.pushFresh name i n).Balanced around hand := by
  induction n with
  | zero => exact fun _ _ h => h
  | succ n ih =>
      intro i s h
      have made := h.create (name ++ toString i) false
      exact ih (i + 1) (Balanced.call (.push _) made)

theorem popUpTo (n : Nat) : ∀ {s : Session},
    s.Balanced around hand → (s.popUpTo n).2.2.Balanced around hand := by
  induction n with
  | zero => exact fun h => h
  | succ n ih =>
      intro s h
      have popped := Balanced.call .pop h
      rw [Session.popUpTo]
      cases hs : s.machine.stack.pop? with
      | none =>
          have answer : (s.call .pop).1 = .fault (.emptyStack "pop") := by
            show (s.machine.stack.call .pop).answer = _
            rw [Stack.call_pop_of_none hs]
          generalize s.call .pop = reply at popped answer
          obtain ⟨a, u⟩ := reply
          cases answer
          exact popped
      | some top =>
          have answer : (s.call .pop).1 = .frame top.1 := by
            show (s.machine.stack.call .pop).answer = _
            rw [Stack.call_pop_of_some hs]
          generalize s.call .pop = reply at popped answer
          obtain ⟨a, u⟩ := reply
          cases answer
          exact ih popped.release

theorem createForCalls (name : String) (count : Nat) :
    ∀ (n : Nat) {s : Session} {hand : List Frame}, s.Balanced around hand →
      (s.createForCalls name n count).Balanced around
        ((List.range' s.registry.scopes.size count).map Frame.numbered ++ hand) := by
  induction count with
  | zero => exact fun _ _ _ h => h
  | succ count ih =>
      intro n s hand h
      let made := s.create (name ++ " " ++ toString n)
      have size : made.2.registry.scopes.size = s.registry.scopes.size + 1 := Array.size_push _
      have later : (made.2.createForCalls name (n - 1) count).Balanced around _ :=
        ih (n - 1) (h.create _ _)
      rw [size] at later
      rw [List.range'_succ, List.map_cons]
      exact later.reorder List.perm_middle

theorem recurse (h : s.Balanced around []) (name : String) (n : Nat) :
    (s.recurse name n).2.Balanced around [] := by
  let first := s.registry.scopes.size
  let descent := s.machine.descend (fun i => .numbered (first + i)) 0 n
  let made := s.createForCalls name n descent.frames
  have back : descent.Conserves s.machine
      ((List.range' 0 descent.frames).map (fun i => .numbered (first + i))) :=
    s.machine.descend_conserves _ n 0
  -- the frames that were created are those that the recursion was given
  have given : (List.range' 0 descent.frames).map (fun i => Frame.numbered (first + i))
      = (List.range' first descent.frames).map Frame.numbered := by
    have shifted := List.map_add_range' (a := first) 0 descent.frames 1
    rw [Nat.add_zero] at shifted
    rw [← shifted, List.map_map]
    rfl
  have created : made.Balanced around _ := createForCalls name descent.frames n h
  have machine : made.machine = s.machine := machine_createForCalls s name n descent.frames
  have conserves := back.transition
  rw [given, ← machine] at conserves
  have moved := created.moved conserves
  rw [back.guards, back.forgotten, ← h.around] at moved
  rw [← h.around]
  exact moved

/-- What a command does with a frame that an expression names. -/
theorem with_frame {expr : FrameExpr} {k : Frame × Session → Result × Session}
    {x : Result × Session} (h : s.Balanced around hand)
    (performed : (s.eval? expr).map k = some x)
    (keeps : ∀ frame u, u.Balanced around (frame :: hand) →
      (k (frame, u)).2.Balanced around hand) :
    x.2.Balanced around hand := by
  obtain ⟨⟨frame, u⟩, evaluated, same⟩ := Option.map_eq_some_iff.mp performed
  rw [← same]
  exact keeps frame u (h.eval? evaluated)

theorem perform? {c : Command} {x : Result × Session} (h : s.Balanced around [])
    (performed : s.perform? c = some x) : x.2.Balanced around [] := by
  cases c with
  | push expr save =>
      exact h.with_frame performed (fun frame u hu => ask (.push frame) none (hu.holdClone save))
  | pop save => cases performed; exact ask .pop save h
  | swap expr save =>
      exact h.with_frame performed (fun frame u hu => ask (.swap frame) save hu)
  | set level expr =>
      exact h.with_frame performed (fun frame u hu => ask (.set level frame) none hu)
  | get level save => cases performed; exact ask (.get level) save h
  | top save => cases performed; exact ask .top save h
  | frame level => cases performed; exact ask (.frame level) none h
  | isNative expr =>
      refine h.with_frame performed (fun frame u hu => ?_)
      exact (ask (.isNative frame) none hu).release
  | depth => cases performed; exact ask .depth none h
  | clear => cases performed; exact ask .clear none h
  | pushMany name n =>
      simp only [Session.perform?] at performed
      split at performed
      · cases performed
        exact h
      · obtain ⟨name, -, same⟩ := Option.map_eq_some_iff.mp performed
        cases same
        exact pushFresh name n 0 h
  | popMany n => cases performed; exact popUpTo n h
  | recurse name n => cases performed; exact h.recurse name n
  | iterate source calls => cases performed; exact ask (.iterate source calls) none h
  | list save => cases performed; exact ask .list save h
  | saved name =>
      obtain ⟨frames, -, same⟩ := Option.map_eq_some_iff.mp performed
      cases same
      exact h
  | dropSaved name =>
      obtain ⟨frames, found, same⟩ := Option.map_eq_some_iff.mp performed
      cases same
      exact (h.dropList found).release
  | render => cases performed
  | renderInto capacity => cases performed; exact h
  | inspect => cases performed; exact h
  | limit => cases performed; exact ask .limit none h
  | pushed => cases performed; exact h
  | walk => cases performed; exact h
  | copy name => cases performed; exact ask .copy (some name) h
  | clone name => cases performed; exact ask .copy (some name) h
  | assign source =>
      obtain ⟨stack, found, same⟩ := Option.map_eq_some_iff.mp performed
      cases same
      have cloned : (s.retain stack.toList).Balanced around (stack.toList ++ []) :=
        h.retain (fun f hf => .inr (List.mem_append_left _ (mem_handles_of_named found hf)))
      exact ask (.replace stack) none cloned
  | take save => cases performed; exact ask (.replace .empty) save h
  | make name expr =>
      obtain ⟨⟨stack, u⟩, built, same⟩ := Option.map_eq_some_iff.mp performed
      cases same
      exact (h.build? built).store name
  | dropStack name =>
      obtain ⟨stack, found, same⟩ := Option.map_eq_some_iff.mp performed
      cases same
      exact (h.dropStack found).release
  | bind name expr =>
      exact h.with_frame performed (fun frame u hu => hu.hold name)
  | unbind name =>
      obtain ⟨frame, found, same⟩ := Option.map_eq_some_iff.mp performed
      cases same
      exact (h.unbind found).release
  | count id =>
      obtain ⟨frame, -, asked⟩ := Option.bind_eq_some_iff.mp performed
      split at asked
      · cases asked
        exact h
      · cases asked
  | define expr ident value =>
      refine h.with_frame performed (fun frame u hu => ?_)
      exact (hu.define frame ident value).release
  | resolve expr ident => exact h.with_frame performed (fun frame u hu => hu.release)
  | lookup level ident =>
      simp only [Session.perform?] at performed
      split at performed
      · cases performed
        exact h
      · obtain ⟨ident, -, same⟩ := Option.map_eq_some_iff.mp performed
        cases same
        exact h
  | report fault other => cases performed; exact h
  | fail message => cases performed
  | panic message => cases performed
  | malformed name expr =>
      obtain ⟨⟨frame, u⟩, evaluated, same⟩ := Option.map_eq_some_iff.mp performed
      obtain ⟨expr, -, evaluated⟩ := Option.bind_eq_some_iff.mp evaluated
      cases same
      exact (h.eval? evaluated).release

end Balanced

end Session

end CallPath
