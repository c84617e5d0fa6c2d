import CallPath.Proofs.Turns

/-!
# A stack and its copies

A family of copies of one stack, at any point of any session, and scripts that take turns on the
stack and its copies. `interleaved_alone` is about each stack by itself: it cannot tell whether
the others were used. For the handles that is not enough, because they are counted over all
stacks and everything else that holds one. The count after many turns is the number of holders
(`Balanced.count_eq`), so two orders of the same turns end with the same counts if they end
with the same holders. They do: each stack, variable and list belongs to one script at most
and ends as that script leaves it, and what was forgotten is the same up to its order
(`counts_of_interleaved`).

Bindings belong to frames, so here it is the frames that matter and not the stacks
(`shares_bindings`).
-/

namespace CallPath

/-! ## Turns that keep apart -/

/-- Turns that stay on their stacks, and do not write to what is mentioned in turns on another
one. -/
structure KeepApart (turns : List Turn) : Prop where
  stays : ∀ turn ∈ turns, turn.script.Stays
  apart : ∀ turn ∈ turns, ∀ other ∈ turns, turn.target ≠ other.target →
    ∀ place ∈ turn.script.writes, place ∉ other.script.mentions

instance (p : Script) : Decidable p.Stays := inferInstanceAs (Decidable (_ ∧ _))

instance (turns : List Turn) : Decidable (KeepApart turns) :=
  decidable_of_iff ((∀ turn ∈ turns, turn.script.Stays) ∧
      ∀ turn ∈ turns, ∀ other ∈ turns, turn.target ≠ other.target →
        ∀ place ∈ turn.script.writes, place ∉ other.script.mentions)
    ⟨fun h => ⟨h.1, h.2⟩, fun h => ⟨h.stays, h.apart⟩⟩

/-- The same turns, those on each stack in the same order. -/
def SameForEach (turns turns' : List Turn) : Prop :=
  ∀ target, turns.filter (·.isOn target) = turns'.filter (·.isOn target)

/-- A place that no turn on another stack writes to. -/
def SafeFor (turns : List Turn) (target : Option String) (place : Place) : Prop :=
  ∀ turn ∈ turns, turn.target ≠ target → place ∉ turn.script.writes

section

variable {turns turns' : List Turn}

theorem Script.mem_mentions_of_writes {p : Script} {place : Place} (h : place ∈ p.writes) :
    place ∈ p.mentions := by
  obtain ⟨c, hc, written⟩ := List.mem_flatMap.mp h
  refine List.mem_append_left _ (List.mem_flatMap.mpr ⟨c, hc, ?_⟩)
  exact List.mem_append_left _ (List.mem_append_left _ written)

/-- Every place is safe for some stack: the one whose turns write to it, if any do. -/
theorem KeepApart.exists_safe (h : KeepApart turns) (place : Place) :
    ∃ target, SafeFor turns target place := by
  by_cases written : ∃ turn ∈ turns, place ∈ turn.script.writes
  · obtain ⟨turn, ht, written⟩ := written
    refine ⟨turn.target, fun other ho different again => ?_⟩
    exact h.apart turn ht other ho (Ne.symm different) place written
      (Script.mem_mentions_of_writes again)
  · exact ⟨none, fun turn ht _ again => written ⟨turn, ht, again⟩⟩

/-- Lists that agree wherever a key says are one list in two orders. -/
theorem perm_of_filter_eq {α κ : Type} [DecidableEq κ] (key : α → κ) {l l' : List α}
    (same : ∀ k, l.filter (fun a => key a = k) = l'.filter (fun a => key a = k)) :
    l.Perm l' := by
  classical
  refine List.perm_iff_count.mpr (fun a => ?_)
  have counts := congrArg (List.count a) (same (key a))
  rwa [List.count_filter (by simp), List.count_filter (by simp)] at counts

theorem SameForEach.perm (h : SameForEach turns turns') : turns.Perm turns' :=
  perm_of_filter_eq Turn.target h

theorem KeepApart.reorder (h : KeepApart turns) (same : turns.Perm turns') : KeepApart turns' where
  stays turn ht := h.stays turn (same.mem_iff.mpr ht)
  apart turn ht other ho := h.apart turn (same.mem_iff.mpr ht) other (same.mem_iff.mpr ho)

end

/-! ## Copies -/

/-- The name under which a command puts a copy of the current stack. -/
def Command.copyName? : Command → Option String
  | .copy name | .clone name => some name
  | _ => none

/-- Commands one after the other. -/
def Script.ofCommands : List Command → Script
  | [] => .done
  | c :: rest => .act c (ofCommands rest)

namespace Session

variable {s t : Session} {turns turns' : List Turn}

theorem act_copy {c : Command} {name : String} (copies : c.copyName? = some name) (s : Session) :
    ∃ next : Session, s.act c = (next, .returned) ∧ next.machine.stack = s.machine.stack ∧
      next.named = s.named.insert name s.machine.stack := by
  cases c with
  | copy other =>
      cases copies
      exact ⟨_, rfl, rfl, rfl⟩
  | clone other =>
      cases copies
      exact ⟨_, rfl, rfl, rfl⟩
  | _ => cases copies

/-- A copy has the frames and the limit of the stack it was made from, and copying takes nothing
from that. -/
theorem copies_made {family : List Command} (copies : ∀ c ∈ family, c.copyName? ≠ none) :
    ∀ s : Session,
      (s.run (.ofCommands family)).1.machine.stack = s.machine.stack ∧
        ∀ name,
          s.stack? (some name) = some s.machine.stack ∨
            (∃ c ∈ family, c.copyName? = some name) →
          (s.run (.ofCommands family)).1.stack? (some name) = some s.machine.stack := by
  induction family with
  | nil => exact fun s => ⟨rfl, fun name copied => copied.elim id (fun h => by simp at h)⟩
  | cons c rest ih =>
      intro s
      obtain ⟨own, copied⟩ := Option.ne_none_iff_exists'.mp (copies c List.mem_cons_self)
      obtain ⟨next, acted, stack, named⟩ := act_copy copied s
      have ran : (s.run (.ofCommands (c :: rest))) = next.run (.ofCommands rest) := by
        show andThen (s.act c) _ = _
        rw [acted]
        rfl
      obtain ⟨kept, made⟩ := ih (fun c hc => copies c (List.mem_cons_of_mem _ hc)) next
      rw [ran]
      rw [stack] at kept made
      refine ⟨kept, fun name h => made name ?_⟩
      have bound : next.stack? (some name)
          = if own = name then some s.machine.stack else s.stack? (some name) := by
        show next.named.find? name = _
        rw [named, Table.find?_insert]
        rfl
      by_cases same : own = name
      · exact .inl (bound.trans (if_pos same))
      · rcases h with before | ⟨d, hd, again⟩
        · exact .inl ((bound.trans (if_neg same)).trans before)
        · rcases List.mem_cons.mp hd with rfl | hd
          · exact absurd (Option.some.inj (copied.symm.trans again)) same
          · exact .inr ⟨d, hd, again⟩

/-- **A stack cannot tell whether others were used.** In any order of turns it ends as it does
when only its own are taken, and these come to the same. -/
theorem interleaved_alone (quiet : s.log = []) (apart : KeepApart turns)
    (target : Option String) :
    Agree target (SafeFor turns target) (s.turns turns).1
        (s.turns (turns.filter (·.isOn target))).1 ∧
      (s.turns turns).2.filter (·.isOn target) = (s.turns (turns.filter (·.isOn target))).2 := by
  have own : ∀ turn ∈ turns, turn.target = target →
      ∀ place ∈ turn.script.mentions, SafeFor turns target place := by
    rintro turn ht rfl place mentioned other ho different written
    exact apart.apart other ho turn ht different place written mentioned
  have others : ∀ turn ∈ turns, turn.target ≠ target →
      ∀ place ∈ turn.script.writes, ¬ SafeFor turns target place :=
    fun turn ht different place written safe => safe turn ht different written
  exact turns_alike turns apart.stays own others s s (.of_quiet quiet target _)

/-! ## Sessions that can come about -/

/-- A session that begins, and everything that a script passes through in one that has come
about. -/
inductive Reached : Session → Prop where
  | start {expr : StackExpr} {s : Session} : start? expr = some s → Reached s
  | passed {s t : Session} (p : Script) :
      Reached s → t ∈ (p.run host.trailing { state := s }).1.states → Reached t

theorem Reached.balanced (h : s.Reached) : s.Balanced s.surroundings [] := by
  induction h with
  | start begun => exact (start_balanced begun).here
  | passed p _ there ih => exact ((run_balanced ih p).1 _ there).1

theorem Reached.quiet (h : s.Reached) : s.log = [] := by
  induction h with
  | start begun =>
      obtain ⟨built, -, same⟩ := Option.map_eq_some_iff.mp begun
      cases same
      rfl
  | passed p _ there ih => exact trail_quiet p ih _ there

theorem Reached.run (h : s.Reached) (p : Script) : (s.run p).1.Reached :=
  .passed p h (s.run_mem_trail p)

theorem Reached.after_turns (turns : List Turn) :
    ∀ {s : Session}, s.Reached → (s.turns turns).1.Reached := by
  induction turns with
  | nil => exact fun h => h
  | cons turn rest ih => exact fun h => ih (h.run turn.whole)

/-! ## Holders -/

/-- Sessions hold the same handles if they have the same stacks, places and waiting machines,
and have forgotten the same frames in some order. -/
theorem holders_eq {around around' : Surroundings} (hs : s.Balanced around [])
    (ht : t.Balanced around' []) (stack : ∀ target, s.stack? target = t.stack? target)
    (guards : s.machine.guards = t.machine.guards) (suspended : s.suspended = t.suspended)
    (forgotten : s.machine.forgotten.Perm t.machine.forgotten)
    (kept : ∀ place, s.kept place = t.kept place) (frame : Frame) :
    s.holders frame = t.holders frame := by
  have current : s.machine.stack = t.machine.stack := Option.some.inj (stack none)
  have named : s.named.values.Perm t.named.values :=
    hs.named.perm_of_find? ht.named (fun name => stack (some name))
  have lists : s.lists.values.Perm t.lists.values :=
    hs.lists.perm_of_find? ht.lists (fun name => kept (.list name))
  have bound : s.bound.values.Perm t.bound.values :=
    hs.bound.perm_of_find? ht.bound (fun name => find?_of_kept (kept (.var name)))
  have onStacks := (named.flatMap_right Stack.toList).count_eq frame
  have inLists := lists.flatten.count_eq frame
  have inVariables := bound.count_eq frame
  have lost := forgotten.count_eq frame
  simp only [holders, handles, Machine.handles, List.count_append, current, guards, suspended]
  omega

/-- **The order of turns makes no difference to the handles.** -/
theorem counts_of_interleaved (reached : s.Reached) (apart : KeepApart turns)
    (same : SameForEach turns turns') (frame : Frame) :
    (s.turns turns).1.ledger.count frame = (s.turns turns').1.ledger.count frame := by
  have apart' := apart.reorder same.perm
  have alone := interleaved_alone reached.quiet apart
  have alone' := interleaved_alone reached.quiet apart'
  obtain ⟨waiting, lost⟩ := turns_around turns apart.stays reached.quiet
  obtain ⟨waiting', lost'⟩ := turns_around turns' apart'.stays reached.quiet
  -- alone, a stack sees one order only
  have once (target : Option String) : s.turns (turns.filter (·.isOn target))
      = s.turns (turns'.filter (·.isOn target)) := congrArg s.turns (same target)
  have reports : (s.turns turns).2.Perm (s.turns turns').2 := by
    refine perm_of_filter_eq Report.target (fun target => ?_)
    exact (alone target).2.trans ((congrArg Prod.snd (once target)).trans (alone' target).2.symm)
  have forgotten :
      (s.turns turns).1.machine.forgotten.Perm (s.turns turns').1.machine.forgotten := by
    rw [lost, lost']
    refine List.Perm.append_right _ (List.Perm.flatMap_right _ ?_)
    exact (List.reverse_perm _).trans (reports.trans (List.reverse_perm _).symm)
  have agree (target : Option String) :
      Agree target (SafeFor turns target) (s.turns turns).1 (s.turns turns').1 := by
    have theirs := (alone' target).1
    rw [← once] at theirs
    have safe : ∀ place, SafeFor turns target place → SafeFor turns' target place :=
      fun place safe turn ht => safe turn (same.perm.mem_iff.mpr ht)
    exact (alone target).1.trans (theirs.mono safe).symm
  rw [(reached.after_turns turns).balanced.count_eq, (reached.after_turns turns').balanced.count_eq]
  refine holders_eq (reached.after_turns turns).balanced (reached.after_turns turns').balanced
    (fun target => (agree target).stack) ((agree none).guards rfl) (waiting.trans waiting'.symm)
    forgotten (fun place => ?_) frame
  obtain ⟨target, safe⟩ := apart.exists_safe place
  exact (agree target).kept place safe

/-! ## Bindings -/

/-- The session in which the script of a turn runs. -/
theorem exists_stage {target : Option String} {stack : Stack Frame}
    (found : s.stack? target = some stack) :
    ∃ u : Session, u.machine.stack = stack ∧ u.registry = s.registry ∧ u.log = s.log ∧
      u.steps = s.steps ∧ ∀ p,
        (s.turn { target, script := p }).1.registry = (u.run p).1.registry ∧
        (u.run p).1.steps.toList <+: (s.turn { target, script := p }).1.steps.toList := by
  cases target with
  | none => exact ⟨s, Option.some.inj found, rfl, rfl, rfl, fun p => ⟨rfl, List.prefix_refl _⟩⟩
  | some name =>
      refine ⟨s.suspendFor name stack, rfl, rfl, rfl, rfl, fun p => ?_⟩
      have whole := congrArg Prod.fst (run_within_some (p := p) found)
      rw [show (s.turn { target := some name, script := p }).1 = _ from whole]
      refine ⟨registry_resume _ name, ?_⟩
      rw [Session.step, Array.toList_push, steps_resume]
      exact List.prefix_append _ _

/-- What is defined in a frame reached through one stack is resolved in it through any other,
whatever turns were taken in between, unless one of them defined it anew. -/
def SharesBindings (s : Session) : Prop :=
  ∀ target level frame ident value later target' level',
    (s.stack? target).bind (·.frame? level) = some frame →
    (∀ turn ∈ later, ∀ expr other, .define expr ident other ∉ turn.script.acts) →
    let defined := (s.turn ⟨target, .act (.define (.level level) ident value) .done⟩).1
    let after := (defined.turns later).1
    (after.stack? target').bind (·.frame? level') = some frame →
    (after.turn ⟨target', .act (.resolve (.level level') ident) .done⟩).2.shown.head?
      = some ("resolve", .value (some value), [])

theorem acts_whole (turn : Turn) : turn.whole.acts = turn.script.acts := by
  obtain ⟨target, p⟩ := turn
  cases target with
  | none => rfl
  | some name => exact List.append_nil _

theorem turns_keep_bindings {ident : String} (turns : List Turn)
    (others : ∀ turn ∈ turns, ∀ expr other, .define expr ident other ∉ turn.script.acts) :
    ∀ s : Session, s.registry.Keeps ident (s.turns turns).1.registry := by
  induction turns with
  | nil => exact fun s => .refl ident s.registry
  | cons turn rest ih =>
      intro s
      have first : s.registry.Keeps ident (s.run turn.whole).1.registry := by
        refine run_keeps_bindings s turn.whole ?_
        rw [acts_whole]
        exact others turn List.mem_cons_self
      exact first.trans (ih (fun turn ht => others turn (List.mem_cons_of_mem _ ht)) _)

theorem mem_handles_of_stack? {target : Option String} {stack : Stack Frame} {frame : Frame}
    (found : s.stack? target = some stack) (there : frame ∈ stack.toList) : frame ∈ s.handles := by
  cases target with
  | none =>
      cases found
      exact mem_handles_of_machine
        (List.mem_append_left _ (List.mem_append_left _ there))
  | some name => exact mem_handles_of_named found there

theorem shown_first {turn : Turn} {step : Step}
    (noted : s.steps.toList ++ [step] <+: (s.turn turn).1.steps.toList) :
    (s.turn turn).2.shown.head? = some step.told := by
  obtain ⟨more, noted⟩ := noted
  show (((s.turn turn).1.steps.toList.drop s.steps.size).map Step.told).head? = _
  rw [← noted, ← Array.length_toList, List.append_assoc, List.drop_left]
  rfl

section

variable {target : Option String} {level : Nat} {frame : Frame}

/-- A definition goes to the frame, whichever stack it is reached through. -/
theorem registry_define_turn (here : (s.stack? target).bind (·.frame? level) = some frame)
    (ident : String) (value : Int) :
    (s.turn { target, script := .act (.define (.level level) ident value) .done }).1.registry
      = s.registry.define frame ident value := by
  obtain ⟨stack, found, onStack⟩ := Option.bind_eq_some_iff.mp here
  obtain ⟨u, current, registry, -, -, taken⟩ := exists_stage found
  have reads : u.machine.stack.get level = frame := by
    rw [current, Stack.get, onStack, Option.getD_some]
  rw [(taken _).1, ← registry, ← reads]
  rfl

/-- A question about a binding is answered by the frame. -/
theorem shown_resolve_turn (quiet : s.log = [])
    (here : (s.stack? target).bind (·.frame? level) = some frame) (ident : String) :
    (s.turn { target, script := .act (.resolve (.level level) ident) .done }).2.shown.head?
      = some ("resolve", .value (s.registry.resolve frame ident), []) := by
  obtain ⟨stack, found, onStack⟩ := Option.bind_eq_some_iff.mp here
  obtain ⟨u, current, registry, log, steps, taken⟩ := exists_stage found
  have reads : u.machine.stack.get level = frame := by
    rw [current, Stack.get, onStack, Option.getD_some]
  let asked : Step :=
    { name := "resolve"
      result := .value (u.registry.resolve (u.machine.stack.get level) ident)
      depth := u.machine.stack.depth
      top := (List.range Step.shown).filterMap u.machine.stack.frame?
      events := u.log ++ [] }
  have noted : (u.run (.act (.resolve (.level level) ident) .done)).1.steps.toList
      = s.steps.toList ++ [asked] := by
    rw [← steps]
    exact Array.toList_push
  have answer : asked.told = ("resolve", .value (s.registry.resolve frame ident), []) := by
    simp only [asked, Step.told, reads, registry, log, quiet, List.append_nil]
  rw [← answer]
  exact shown_first (noted ▸ (taken _).2)

end

/-- **Bindings are shared.** The frame is the same one, whichever stack it was found on. -/
theorem shares_bindings (reached : s.Reached) : s.SharesBindings := by
  intro target level frame ident value later target' level' here others defined after there
  have created : s.registry.has frame = true := by
    obtain ⟨stack, found, onStack⟩ := Option.bind_eq_some_iff.mp here
    refine reached.balanced.has_of_mem (List.mem_append_left _ (mem_handles_of_stack? found ?_))
    exact List.mem_of_getElem? (stack.frame?_eq level ▸ onStack)
  have now : defined.registry = s.registry.define frame ident value :=
    registry_define_turn here ident value
  have known : defined.registry.has frame = true := by
    rw [now, Registry.has_define]
    exact created
  -- the turns in between leave the binding alone
  have kept : after.registry.resolve frame ident = some value := by
    rw [(turns_keep_bindings later others defined frame known).2, now]
    exact Registry.resolve_define created ident value
  have quiet : after.log = [] := ((reached.run _).after_turns later).quiet
  rw [← kept]
  exact shown_resolve_turn quiet there ident

end Session

/-- **A stack and its copies go their own ways.** Take any session, at any point of any script,
and a family of copies of its current stack. They begin with the frames and the limit of that
stack. Turns on them that keep apart can be taken in any order: every stack ends with the frames
and the limit that its own turns alone give it, and those come to the same and log the same. The
handle counts in the end do not depend on the order either. And a binding that was defined in a
frame through one stack is found in the frame through any other. -/
theorem copies_go_their_own_ways {before : Session} (reached : before.Reached)
    {family : List Command} (copies : ∀ c ∈ family, c.copyName? ≠ none) :
    let s := (before.run (.ofCommands family)).1
    (s.machine.stack = before.machine.stack ∧
      ∀ c ∈ family, ∀ name ∈ c.copyName?, s.stack? (some name) = some before.machine.stack) ∧
    (∀ turns, KeepApart turns → ∀ target,
      let alone := s.turns (turns.filter (·.isOn target))
      (s.turns turns).1.stack? target = alone.1.stack? target ∧
        (s.turns turns).2.filter (·.isOn target) = alone.2) ∧
    (∀ turns turns', KeepApart turns → SameForEach turns turns' → ∀ frame,
      (s.turns turns).1.ledger.count frame = (s.turns turns').1.ledger.count frame) ∧
    ∀ turns, (s.turns turns).1.SharesBindings := by
  intro s
  have there : s.Reached := reached.run (.ofCommands family)
  obtain ⟨same, made⟩ := Session.copies_made copies before
  refine ⟨⟨same, fun c hc name hn => made name (.inr ⟨c, hc, hn⟩)⟩, ?_, ?_, ?_⟩
  · intro turns apart target
    obtain ⟨agree, reports⟩ := Session.interleaved_alone there.quiet apart target
    exact ⟨agree.stack, reports⟩
  · exact fun turns turns' apart same frame =>
      Session.counts_of_interleaved there apart same frame
  · exact fun turns => Session.shares_bindings (there.after_turns turns)

/-- Turns on a stack and two copies of it: a frame is popped into a variable and pushed back
later, a guard is forgotten, a copy is cleared. -/
def errands : List Turn :=
  [⟨some "a", .act (.pop (some "mine")) .done⟩,
    ⟨none, .block (.enter (.level 0) false true) .done .done⟩,
    ⟨some "b", .act (.set 0 .native) (.act .clear .done)⟩,
    ⟨some "a", .act (.push (.held "mine") none) .done⟩]

/-- The same turns, the stacks in another order. -/
def errandsLater : List Turn :=
  [⟨none, .block (.enter (.level 0) false true) .done .done⟩,
    ⟨some "a", .act (.pop (some "mine")) .done⟩,
    ⟨some "a", .act (.push (.held "mine") none) .done⟩,
    ⟨some "b", .act (.set 0 .native) (.act .clear .done)⟩]

theorem sameForEach_errands : SameForEach errands errandsLater := by
  intro target
  by_cases current : target = none
  · subst current
    rfl
  by_cases first : target = some "a"
  · subst first
    rfl
  by_cases second : target = some "b"
  · subst second
    rfl
  · simp [errands, errandsLater, Turn.isOn, Ne.symm current, Ne.symm first, Ne.symm second]

theorem copies_go_their_own_ways_on_errands :
    ∃ start, Session.start? (.seeded (.fresh "main" false)) = some start ∧
      let s := (start.run (.ofCommands [.copy "a", .clone "b"])).1
      (s.stack? (some "b")).map Stack.toList = some [.numbered 0] ∧
        ((s.turns errands).1.stack? (some "a")).map Stack.toList = some [.numbered 0] ∧
        (s.turns errandsLater).1.ledger.count (.numbered 0) = 5 := by
  obtain ⟨start, begun⟩ : ∃ start, Session.start? (.seeded (.fresh "main" false)) = some start :=
    ⟨_, rfl⟩
  have copies : ∀ c ∈ [Command.copy "a", .clone "b"], c.copyName? ≠ none := by
    simp [Command.copyName?]
  obtain ⟨⟨-, made⟩, own, counts, -⟩ := copies_go_their_own_ways (.start begun) copies
  have apart : KeepApart errands := by decide
  refine ⟨start, begun, ?_, ?_, ?_⟩
  · rw [made (.clone "b") (by simp) "b" rfl]
    cases begun
    decide
  · rw [(own errands apart (some "a")).1]
    cases begun
    decide
  · rw [← counts errands errandsLater apart sameForEach_errands]
    cases begun
    decide

end CallPath
