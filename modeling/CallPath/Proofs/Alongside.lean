import CallPath.Proofs.Simulation
import CallPath.Session.Run

/-!
# One script in two sessions

A script that stays on the current stack has no business with the rest of the session. It names
frames that are there already, it writes to a few variables and lists, and everything else it
leaves alone: the stacks that wait, those in the table, and what frames carry.

So it can be run in two sessions that have nothing in common but the current stack with its
guards, what frames carry, and the variables and lists that the script mentions, and it does the
same in both (`run_alongside`). The two runs go side by side, and what is said of them is said
relative to where they began, because each session goes on with what it had: its earlier steps,
and the frames whose guards were forgotten earlier. The ledgers are not compared at all. They
count handles from everywhere.
-/

namespace CallPath

/-! ## What a script mentions -/

/-- Where a session keeps handles for its scripts. -/
inductive Place where
  | var (name : String)
  | list (name : String)
  deriving DecidableEq

/-- Whether an expression names a frame that is there already. -/
def FrameExpr.isOld : FrameExpr → Bool
  | .fresh .. => false
  | .held _ | .level _ | .native | .pushed => true

def FrameExpr.reads : FrameExpr → List Place
  | .held name => [.var name]
  | .fresh .. | .level _ | .native | .pushed => []

namespace Command

/-- How a command names the frame it is about, if it is about one. -/
def frame? : Command → Option FrameExpr
  | push expr _ | swap expr _ | set _ expr | isNative expr | bind _ expr | define expr _ _
  | resolve expr _ => some expr
  | malformed _ expr => expr
  | _ => none

/-- Whether a command is about the current stack and frames that are there already, and leaves
alone what these carry. -/
def stays : Command → Bool
  | copy _ | clone _ | assign _ | take _ | make _ _ | dropStack _ => false
  | pushMany _ _ | recurse _ _ | count _ | define _ _ _ => false
  | c => c.frame?.all FrameExpr.isOld

/-- Where a command puts handles, or takes them away. -/
def writes : Command → List Place
  | push _ save | pop save | swap _ save | get _ save | top save => save.toList.map .var
  | bind name _ | unbind name => [.var name]
  | list save => save.toList.map .list
  | dropSaved name => [.list name]
  | _ => []

def mentions (c : Command) : List Place :=
  c.writes ++ (c.frame?.toList.flatMap FrameExpr.reads) ++
    match c with
    | saved name => [.list name]
    | _ => []

end Command

namespace Section

def frame? : Section → Option FrameExpr
  | enter expr _ _ | enterHidden expr _ => some expr
  | attempt | within _ => none

def stays : Section → Bool
  | within _ => false
  | header => header.frame?.all FrameExpr.isOld

def mentions (header : Section) : List Place := header.frame?.toList.flatMap FrameExpr.reads

end Section

namespace Script

/-- Whether a script stays on the current stack. -/
def Stays (p : Script) : Prop := (∀ c ∈ p.acts, c.stays) ∧ ∀ header ∈ p.blocks, header.stays

def writes (p : Script) : List Place := p.acts.flatMap Command.writes

def mentions (p : Script) : List Place :=
  p.acts.flatMap Command.mentions ++ p.blocks.flatMap Section.mentions

end Script

/-! ## Machines that remember more -/

/-- The machine with more frames that forgotten guards hold on to. -/
def Machine.recall (m : Machine Frame) (more : List Frame) : Machine Frame :=
  { m with forgotten := m.forgotten ++ more }

/-- No move looks at what was forgotten. -/
theorem Machine.step_recall (m : Machine Frame) (more : List Frame) (mv : Move Frame) :
    (m.recall more).step mv
      = { m.step mv with machine := (m.step mv).machine.recall more } := by
  cases mv with
  | call c => rfl
  | enter manner frame =>
      show (m.recall more).enter manner frame = _
      cases hr : m.stack.limit.refusal? m.stack.depth with
      | some limit =>
          rw [step, enter_refused hr, enter_refused (m := m.recall more) hr]
          rfl
      | none =>
          rw [step, enter_accepted hr, enter_accepted (m := m.recall more) hr]
          rfl
  | leave =>
      show (m.recall more).leave = _
      cases hg : m.guards with
      | nil => rw [step, leave_of_nil hg, leave_of_nil (m := m.recall more) hg]
      | cons guard rest =>
          rw [step, leave_of_cons hg, leave_of_cons (m := m.recall more) hg]
          rfl
  | forget =>
      obtain ⟨stack, guards, forgotten⟩ := m
      cases guards <;> rfl

namespace Session

/-! ## Places -/

/-- What is kept at a place. -/
def kept (s : Session) : Place → Option (List Frame)
  | .var name => (s.bound.find? name).map (fun frame => [frame])
  | .list name => s.lists.find? name

theorem find?_of_kept {s t : Session} {name : String}
    (same : s.kept (.var name) = t.kept (.var name)) :
    s.bound.find? name = t.bound.find? name := by
  unfold kept at same
  cases hs : s.bound.find? name <;> cases ht : t.bound.find? name <;> simp_all

/-- One variable was bound anew or not at all. -/
theorem kept_of_bound {s s' : Session} {name : String} {value : Option Frame}
    (lists : s'.lists = s.lists)
    (bound : ∀ other,
      s'.bound.find? other = if name = other then value else s.bound.find? other)
    (place : Place) :
    s'.kept place
      = if place = .var name then value.map (fun frame => [frame]) else s.kept place := by
  cases place with
  | list other => exact congrArg (·.find? other) lists
  | var other =>
      rw [kept, bound]
      by_cases same : name = other
      · rw [if_pos same, if_pos (congrArg Place.var same.symm)]
      · rw [if_neg same, if_neg (fun h => same (Place.var.inj h).symm)]
        rfl

/-- One list was saved anew or given up. -/
theorem kept_of_lists {s s' : Session} {name : String} {value : Option (List Frame)}
    (bound : s'.bound = s.bound)
    (lists : ∀ other,
      s'.lists.find? other = if name = other then value else s.lists.find? other)
    (place : Place) :
    s'.kept place = if place = .list name then value else s.kept place := by
  cases place with
  | var other =>
      exact congrArg (fun table : Table Frame => (table.find? other).map (fun f => [f])) bound
  | list other =>
      rw [kept, lists]
      by_cases same : name = other
      · rw [if_pos same, if_pos (congrArg Place.list same.symm)]
      · rw [if_neg same, if_neg (fun h => same (Place.list.inj h).symm)]
        rfl

/-! ## Two sessions side by side -/

/-- A session that began as `s₀`, after a script that stayed on the current stack and wrote to
`written` only. -/
structure Since (written : Place → Prop) (s₀ s : Session) : Prop where
  registry : s.registry = s₀.registry
  suspended : s.suspended = s₀.suspended
  named : s.named = s₀.named
  kept : ∀ place, ¬ written place → s.kept place = s₀.kept place

/-- Two sessions that began as `s₀` and `t₀` and went the same way since, as far as the places
`common` and the current stack are concerned. -/
structure Alongside (common written : Place → Prop) (s₀ t₀ s t : Session) : Prop where
  left : Since written s₀ s
  right : Since written t₀ t
  registry : s.registry = t.registry
  log : s.log = t.log
  kept : ∀ place, common place → s.kept place = t.kept place
  /-- Each machine has lost the frames that it had lost before, and the same ones since. -/
  machine : ∃ m : Machine Frame, s.machine = m.recall s₀.machine.forgotten ∧
    t.machine = m.recall t₀.machine.forgotten
  steps : ∃ added, s.steps.toList = s₀.steps.toList ++ added ∧
    t.steps.toList = t₀.steps.toList ++ added

/-- Two results that are one, with sessions that go on side by side. -/
def TellAlike (common written : Place → Prop) (s₀ t₀ : Session) {α : Type} (x y : α × Session) :
    Prop :=
  x.1 = y.1 ∧ Alongside common written s₀ t₀ x.2 y.2

namespace Alongside

variable {common written : Place → Prop} {s₀ t₀ s t : Session} {α : Type}

/-- Two sessions that agree are side by side before anything has happened. -/
theorem begin (registry : s.registry = t.registry) (log : s.log = t.log)
    (kept : ∀ place, common place → s.kept place = t.kept place)
    (stack : s.machine.stack = t.machine.stack) (guards : s.machine.guards = t.machine.guards) :
    Alongside common written s t s t where
  left := ⟨rfl, rfl, rfl, fun _ _ => rfl⟩
  right := ⟨rfl, rfl, rfl, fun _ _ => rfl⟩
  registry := registry
  log := log
  kept := kept
  machine := ⟨⟨t.machine.stack, t.machine.guards, []⟩, by rw [← stack, ← guards]; rfl, rfl⟩
  steps := ⟨[], (List.append_nil _).symm, (List.append_nil _).symm⟩

theorem stack (h : Alongside common written s₀ t₀ s t) : s.machine.stack = t.machine.stack := by
  obtain ⟨m, hs, ht⟩ := h.machine
  rw [hs, ht]
  rfl

theorem guards (h : Alongside common written s₀ t₀ s t) :
    s.machine.guards = t.machine.guards := by
  obtain ⟨m, hs, ht⟩ := h.machine
  rw [hs, ht]
  rfl

/-- The guard within reach is the same, and is shown the same way. -/
theorem guard? (h : Alongside common written s₀ t₀ s t) :
    s.machine.guard? = t.machine.guard? := by
  unfold Machine.guard?
  rw [h.guards]

/-- What the ledgers count has no part in this. -/
theorem books (h : Alongside common written s₀ t₀ s t) (l l' : Ledger) :
    Alongside common written s₀ t₀ { s with ledger := l } { t with ledger := l' } :=
  ⟨⟨h.left.registry, h.left.suspended, h.left.named, h.left.kept⟩,
    ⟨h.right.registry, h.right.suspended, h.right.named, h.right.kept⟩,
    h.registry, h.log, h.kept, h.machine, h.steps⟩

theorem retain (h : Alongside common written s₀ t₀ s t) (frames frames' : List Frame) :
    Alongside common written s₀ t₀ (s.retain frames) (t.retain frames') :=
  h.books _ _

theorem release (h : Alongside common written s₀ t₀ s t) (frames frames' : List Frame) :
    Alongside common written s₀ t₀ (s.release frames) (t.release frames') :=
  h.books _ _

/-- A move of the machine comes to the same in both. -/
theorem move (h : Alongside common written s₀ t₀ s t) (mv : Move Frame) :
    (s.machine.step mv).answer = (t.machine.step mv).answer ∧
      Alongside common written s₀ t₀ (s.moved (s.machine.step mv))
        (t.moved (t.machine.step mv)) := by
  obtain ⟨m, hs, ht⟩ := h.machine
  rw [hs, ht, m.step_recall, m.step_recall]
  have log : s.log ++ (m.step mv).effect.events = t.log ++ (m.step mv).effect.events := by
    rw [h.log]
  exact ⟨rfl, ⟨h.left.registry, h.left.suspended, h.left.named, h.left.kept⟩,
    ⟨h.right.registry, h.right.suspended, h.right.named, h.right.kept⟩,
    h.registry, log, h.kept, ⟨_, rfl, rfl⟩, h.steps⟩

theorem call (h : Alongside common written s₀ t₀ s t) (c : Call Frame) :
    TellAlike common written s₀ t₀ (s.call c) (t.call c) :=
  h.move (.call c)

/-- What happens to one place that may be written to happens in both sessions. -/
theorem put {place : Place} {value : Option (List Frame)} {bound bound' : Table Frame}
    {lists lists' : Table (List Frame)} {l l' : Ledger}
    (h : Alongside common written s₀ t₀ s t) (mem : written place)
    (left : ∀ other, Session.kept { s with bound, lists, ledger := l } other
      = if other = place then value else s.kept other)
    (right : ∀ other,
      Session.kept { t with bound := bound', lists := lists', ledger := l' } other
        = if other = place then value else t.kept other) :
    Alongside common written s₀ t₀ { s with bound, lists, ledger := l }
      { t with bound := bound', lists := lists', ledger := l' } where
  left :=
    { registry := h.left.registry
      suspended := h.left.suspended
      named := h.left.named
      kept := fun other outside => by
        rw [left, if_neg (fun same : other = place => outside (same ▸ mem)),
          h.left.kept other outside] }
  right :=
    { registry := h.right.registry
      suspended := h.right.suspended
      named := h.right.named
      kept := fun other outside => by
        rw [right, if_neg (fun same : other = place => outside (same ▸ mem)),
          h.right.kept other outside] }
  registry := h.registry
  log := h.log
  kept other there := by rw [left, right, h.kept other there]
  machine := h.machine
  steps := h.steps

theorem hold (h : Alongside common written s₀ t₀ s t) {name : String}
    (mem : written (.var name)) (frame : Frame) :
    Alongside common written s₀ t₀ (s.hold name frame) (t.hold name frame) :=
  h.put mem
    (@kept_of_bound s _ name (some frame) rfl (fun other => s.bound.find?_insert name other frame))
    (kept_of_bound rfl (fun other => t.bound.find?_insert name other frame))

theorem unbind (h : Alongside common written s₀ t₀ s t) {name : String}
    (mem : written (.var name)) :
    Alongside common written s₀ t₀ { s with bound := s.bound.erase name }
      { t with bound := t.bound.erase name } :=
  h.put mem (@kept_of_bound s _ name none rfl (s.bound.find?_erase name))
    (kept_of_bound rfl (t.bound.find?_erase name))

theorem saveList (h : Alongside common written s₀ t₀ s t) {name : String}
    (mem : written (.list name)) (frames : List Frame) :
    Alongside common written s₀ t₀ (s.saveList name frames) (t.saveList name frames) :=
  h.put mem (kept_of_lists rfl (fun other => s.lists.find?_insert name other frames))
    (kept_of_lists rfl (fun other => t.lists.find?_insert name other frames))

theorem dropSaved (h : Alongside common written s₀ t₀ s t) {name : String}
    (mem : written (.list name)) :
    Alongside common written s₀ t₀ { s with lists := s.lists.erase name }
      { t with lists := t.lists.erase name } :=
  h.put mem (kept_of_lists rfl (s.lists.find?_erase name))
    (kept_of_lists rfl (t.lists.find?_erase name))

theorem holdClone (h : Alongside common written s₀ t₀ s t) {save : Option String}
    (mem : ∀ place ∈ save.toList.map Place.var, written place) (frame : Frame) :
    Alongside common written s₀ t₀ (s.holdClone save frame) (t.holdClone save frame) := by
  cases save with
  | none => exact h
  | some name => exact (h.retain [frame] [frame]).hold (mem _ List.mem_cons_self) frame

theorem step (h : Alongside common written s₀ t₀ s t) (name : String) (result : Result) :
    Alongside common written s₀ t₀ (s.step name result) (t.step name result) := by
  obtain ⟨added, hs, ht⟩ := h.steps
  refine ⟨⟨h.left.registry, h.left.suspended, h.left.named, h.left.kept⟩,
    ⟨h.right.registry, h.right.suspended, h.right.named, h.right.kept⟩,
    h.registry, rfl, h.kept, h.machine, ?_⟩
  let noted : Step :=
    { name, result, depth := t.machine.stack.depth
      top := (List.range Step.shown).filterMap t.machine.stack.frame?
      events := t.log }
  refine ⟨added ++ [noted], ?_, ?_⟩
  · rw [Session.step, h.stack, h.log, Array.toList_push, hs, List.append_assoc]
  · rw [Session.step, Array.toList_push, ht, List.append_assoc]

/-! ## Commands -/

theorem eval? (h : Alongside common written s₀ t₀ s t) {expr : FrameExpr}
    (old : expr.isOld) (reads : ∀ place ∈ expr.reads, common place) :
    Option.Rel (TellAlike common written s₀ t₀) (s.eval? expr) (t.eval? expr) := by
  cases expr with
  | held name =>
      have same := find?_of_kept (h.kept _ (reads _ List.mem_cons_self))
      unfold Session.eval?
      dsimp only
      rw [same]
      cases t.bound.find? name with
      | none => exact .none
      | some frame => exact .some ⟨rfl, h.retain _ _⟩
  | fresh name mute => cases old
  | level level =>
      have same : s.machine.stack.get level = t.machine.stack.get level := by rw [h.stack]
      exact .some ⟨same, (h.move (.call (.get level))).2⟩
  | native => exact .some ⟨rfl, h.retain _ _⟩
  | pushed =>
      unfold Session.eval?
      dsimp only
      rw [h.guard?]
      cases t.machine.guard? with
      | none => exact .none
      | some guard => exact .some ⟨rfl, h.retain _ _⟩

/-- What a command does with a frame that it names. -/
theorem with_frame (h : Alongside common written s₀ t₀ s t) {expr : FrameExpr}
    (old : expr.isOld) (reads : ∀ place ∈ expr.reads, common place)
    (k : Frame × Session → Result × Session)
    (alike : ∀ frame u v, Alongside common written s₀ t₀ u v →
      TellAlike common written s₀ t₀ (k (frame, u)) (k (frame, v))) :
    Option.Rel (TellAlike common written s₀ t₀) ((s.eval? expr).map k)
      ((t.eval? expr).map k) := by
  have evaluated := h.eval? old reads
  generalize s.eval? expr = x at evaluated
  generalize t.eval? expr = y at evaluated
  cases evaluated with
  | none => exact .none
  | @some x y same =>
      obtain ⟨frame, u⟩ := x
      obtain ⟨frame', v⟩ := y
      obtain ⟨rfl, side⟩ := same
      exact .some (alike frame u v side)

/-- What an answer hands over goes to a place that may be written to. -/
def KeptWithin (written : Place → Prop) (save : Option String) : Answer Frame → Prop
  | .frame _ => ∀ name ∈ save, written (.var name)
  | .frames _ => ∀ name ∈ save, written (.list name)
  | .stack _ => save = none
  | _ => True

theorem conclude (h : Alongside common written s₀ t₀ s t) {save : Option String}
    {answer : Answer Frame} (within : KeptWithin written save answer) :
    TellAlike common written s₀ t₀ (s.conclude save answer) (t.conclude save answer) := by
  cases answer with
  | frame frame =>
      cases save with
      | none => exact ⟨rfl, h.release _ _⟩
      | some name => exact ⟨rfl, h.hold (within name rfl) frame⟩
  | frames frames =>
      cases save with
      | none => exact ⟨rfl, h.release _ _⟩
      | some name => exact ⟨rfl, h.saveList (within name rfl) frames⟩
  | stack stack =>
      cases within
      exact ⟨rfl, h.release _ _⟩
  | _ => exact ⟨rfl, h⟩

theorem ask (h : Alongside common written s₀ t₀ s t) {c : Call Frame} {save : Option String}
    (within : KeptWithin written save (s.call c).1) :
    TellAlike common written s₀ t₀ (s.ask c save) (t.ask c save) := by
  obtain ⟨same, side⟩ := h.call c
  unfold Session.ask
  rw [← same]
  exact side.conclude within

theorem keptWithin_none (answer : Answer Frame) : KeptWithin written none answer := by
  cases answer <;> simp [KeptWithin]

theorem keptWithin_pop {save : Option String} (mem : ∀ name ∈ save, written (.var name)) :
    KeptWithin written save (s.call .pop).1 := by
  show KeptWithin written save (s.machine.stack.call .pop).answer
  cases hs : s.machine.stack.pop? with
  | none =>
      rw [Stack.call_pop_of_none hs]
      trivial
  | some popped =>
      rw [Stack.call_pop_of_some hs]
      exact mem

theorem keptWithin_swap {save : Option String} (mem : ∀ name ∈ save, written (.var name))
    (frame : Frame) : KeptWithin written save (s.call (.swap frame)).1 := by
  show KeptWithin written save (s.machine.stack.call (.swap frame)).answer
  cases hs : s.machine.stack.swap? frame with
  | none =>
      rw [Stack.call_swap_of_none hs]
      trivial
  | some swapped =>
      rw [Stack.call_swap_of_some hs]
      exact mem

theorem popUpTo (n : Nat) : ∀ {s t : Session}, Alongside common written s₀ t₀ s t →
    (s.popUpTo n).1 = (t.popUpTo n).1 ∧
      TellAlike common written s₀ t₀ (s.popUpTo n).2 (t.popUpTo n).2 := by
  induction n with
  | zero => exact fun h => ⟨rfl, rfl, h⟩
  | succ n ih =>
      intro s t h
      have popped := h.call .pop
      rw [Session.popUpTo, Session.popUpTo]
      generalize s.call .pop = x at popped
      generalize t.call .pop = y at popped
      obtain ⟨answer, u⟩ := x
      obtain ⟨answer', v⟩ := y
      obtain ⟨rfl, side⟩ := popped
      cases answer with
      | frame frame =>
          obtain ⟨frames, rest⟩ := ih (side.release [frame] [frame])
          exact ⟨congrArg (frame :: ·) frames, rest⟩
      | fault fault => exact ⟨rfl, rfl, side⟩
      | _ => exact ⟨rfl, rfl, side⟩

/-- What is said of the frame at a level. -/
theorem describe (h : Alongside common written s₀ t₀ s t) (level : Nat) :
    s.describe level = t.describe level := by
  unfold Session.describe
  rw [h.stack, h.registry]

/-- **A command that stays on the current stack** comes to the same in both sessions. -/
theorem perform? (h : Alongside common written s₀ t₀ s t) {c : Command} (stays : c.stays)
    (mentions : ∀ place ∈ c.mentions, common place) (writes : ∀ place ∈ c.writes, written place) :
    Option.Rel (TellAlike common written s₀ t₀) (s.perform? c) (t.perform? c) := by
  -- what a command reads by the expression in it
  have reads : ∀ expr ∈ c.frame?, ∀ place ∈ expr.reads, common place :=
    fun expr he place hp => mentions place (List.mem_append_left _ (List.mem_append_right _
      (List.mem_flatMap.mpr ⟨expr, Option.mem_toList.mpr he, hp⟩)))
  have save : ∀ save : Option String, c.writes = save.toList.map Place.var →
      ∀ name ∈ save, written (.var name) :=
    fun save same name hn => writes _ (same ▸ List.mem_map_of_mem (Option.mem_toList.mpr hn))
  cases c with
  | push expr save =>
      refine h.with_frame stays (reads expr rfl) _ (fun frame u v side => ?_)
      exact (side.holdClone writes frame).ask (keptWithin_none _)
  | pop name => exact .some (h.ask (keptWithin_pop (save name rfl)))
  | swap expr name =>
      exact h.with_frame stays (reads expr rfl) _
        (fun frame u v side => side.ask (keptWithin_swap (save name rfl) frame))
  | set level expr =>
      exact h.with_frame stays (reads expr rfl) _
        (fun frame u v side => side.ask (keptWithin_none _))
  | get level name =>
      have held : KeptWithin written name (s.call (.get level)).1 := save name rfl
      exact .some ⟨h.describe level, (h.ask held).2⟩
  | top name =>
      have held : KeptWithin written name (s.call .top).1 := save name rfl
      exact .some ⟨h.describe 0, (h.ask held).2⟩
  | frame level => exact .some (h.ask (keptWithin_none _))
  | isNative expr =>
      refine h.with_frame stays (reads expr rfl) _ (fun frame u v side => ?_)
      obtain ⟨same, asked⟩ := side.ask (keptWithin_none (u.call (.isNative frame)).1)
      exact ⟨same, asked.release _ _⟩
  | depth => exact .some (h.ask (keptWithin_none _))
  | clear => exact .some (h.ask (keptWithin_none _))
  | popMany n =>
      obtain ⟨frames, fault, side⟩ := h.popUpTo n
      refine .some ⟨?_, side⟩
      show Result.popped _ _ = Result.popped _ _
      rw [frames, fault]
  | iterate source calls => exact .some (h.ask (keptWithin_none _))
  | list name =>
      refine .some (h.ask (fun name' hn => writes _ ?_))
      exact List.mem_map_of_mem (Option.mem_toList.mpr hn)
  | saved name =>
      have same : s.lists.find? name = t.lists.find? name :=
        h.kept (.list name) (mentions _ List.mem_cons_self)
      unfold Session.perform?
      dsimp only
      rw [same]
      cases t.lists.find? name with
      | none => exact .none
      | some frames => exact .some ⟨rfl, h⟩
  | dropSaved name =>
      have same : s.lists.find? name = t.lists.find? name :=
        h.kept (.list name) (mentions _ List.mem_cons_self)
      unfold Session.perform?
      dsimp only
      rw [same]
      cases t.lists.find? name with
      | none => exact .none
      | some frames =>
          exact .some ⟨rfl, (h.dropSaved (writes _ List.mem_cons_self)).release _ _⟩
  | renderInto capacity =>
      refine .some ⟨?_, h⟩
      rw [h.stack, h.registry]
  | inspect =>
      refine .some ⟨?_, h⟩
      unfold Machine.inspect
      rw [h.guard?, h.stack]
  | limit => exact .some (h.ask (keptWithin_none _))
  | pushed =>
      refine .some ⟨?_, h⟩
      rw [h.guard?]
  | walk =>
      refine .some ⟨?_, h⟩
      rw [h.stack]
  | bind name expr =>
      exact h.with_frame stays (reads expr rfl) _
        (fun frame u v side => ⟨rfl, side.hold (writes _ List.mem_cons_self) frame⟩)
  | unbind name =>
      have there : written (.var name) := writes _ List.mem_cons_self
      have same := find?_of_kept (h.kept (.var name) (mentions _ List.mem_cons_self))
      unfold Session.perform?
      dsimp only
      rw [same]
      cases t.bound.find? name with
      | none => exact .none
      | some frame => exact .some ⟨rfl, (h.unbind there).release _ _⟩
  | resolve expr ident =>
      refine h.with_frame stays (reads expr rfl) _ (fun frame u v side => ⟨?_, side.release _ _⟩)
      exact congrArg (fun registry : Registry => Result.value (registry.resolve frame ident))
        side.registry
  | lookup level ident =>
      unfold Session.perform?
      dsimp only
      rw [h.stack, h.registry]
      split
      · exact .some ⟨rfl, h⟩
      · cases ident with
        | none => exact .none
        | some ident => exact .some ⟨rfl, h⟩
  | report fault other => exact .some ⟨rfl, h⟩
  | malformed name expr =>
      cases expr with
      | none => exact .none
      | some expr =>
          exact h.with_frame stays (reads expr rfl) _
            (fun frame u v side => ⟨rfl, side.release _ _⟩)
  -- `act` sees to these by itself
  | render | fail message | panic message => exact .none
  -- these have to do with other stacks, with new frames or with what frames carry
  | copy name | clone name | assign source | take name | make name expr | dropStack name
  | pushMany name n | recurse name n | count id | define expr ident value => cases stays

theorem act (h : Alongside common written s₀ t₀ s t) {c : Command} (stays : c.stays)
    (mentions : ∀ place ∈ c.mentions, common place) (writes : ∀ place ∈ c.writes, written place) :
    EndsAlike (Alongside common written s₀ t₀) (s.act c) (t.act c) := by
  have performed := h.perform? stays mentions writes
  unfold Session.act
  split
  · rw [h.stack, h.registry]
    split
    · exact ⟨h.step _ _, rfl⟩
    · exact ⟨h, rfl⟩
  · rw [h.stack, h.registry]
    split
    · exact ⟨h.step _ _, rfl⟩
    · exact ⟨h, rfl⟩
  · exact ⟨h.step _ _, rfl⟩
  · refine ⟨?_, rfl⟩
    generalize s.perform? c = x at performed
    generalize t.perform? c = y at performed
    cases performed with
    | none => exact h.step _ _
    | @some x y told =>
        obtain ⟨result, u⟩ := x
        obtain ⟨result', v⟩ := y
        obtain ⟨rfl, side⟩ := told
        exact side.step _ _

/-! ## Bodies -/

theorem enterFrame (h : Alongside common written s₀ t₀ s t) (name : String) (manner : Manner)
    {expr : FrameExpr} (old : expr.isOld) (reads : ∀ place ∈ expr.reads, common place)
    (insist : Bool) :
    OpensAlike (Alongside common written s₀ t₀) (s.enterFrame name manner expr insist)
      (t.enterFrame name manner expr insist) := by
  have evaluated := h.eval? old reads
  unfold Session.enterFrame
  generalize s.eval? expr = x at evaluated
  generalize t.eval? expr = y at evaluated
  cases evaluated with
  | none => exact .skipped (h.step _ _)
  | @some x y told =>
      obtain ⟨frame, u⟩ := x
      obtain ⟨frame', v⟩ := y
      obtain ⟨rfl, side⟩ := told
      obtain ⟨answer, entered⟩ := side.move (.enter manner frame)
      have fault : (u.machine.enter manner frame).answer.fault?
          = (v.machine.enter manner frame).answer.fault? := congrArg Answer.fault? answer
      dsimp only
      rw [fault]
      cases (v.machine.enter manner frame).answer.fault? with
      | some fault => exact .skipped (entered.step _ _)
      | none => exact .opened (entered.step _ _)

theorem leaveFrame (h : Alongside common written s₀ t₀ s t) (forget : Bool) (o : Outcome) :
    EndsAlike (Alongside common written s₀ t₀) (s.leaveFrame forget o) (t.leaveFrame forget o) := by
  unfold Session.leaveFrame
  rw [h.stack]
  cases forget with
  | true => exact ⟨(h.move .forget).2.step _ _, rfl⟩
  | false => exact ⟨(h.move .leave).2.step _ _, rfl⟩

theorem openBody (h : Alongside common written s₀ t₀ s t) {header : Section}
    (stays : header.stays) (mentions : ∀ place ∈ header.mentions, common place) :
    OpensAlike (Alongside common written s₀ t₀) (openBody header s) (openBody header t) := by
  have reads : ∀ expr ∈ header.frame?, ∀ place ∈ expr.reads, common place :=
    fun expr he place hp => mentions place
      (List.mem_flatMap.mpr ⟨expr, Option.mem_toList.mpr he, hp⟩)
  cases header with
  | enter expr insist forget => exact h.enterFrame _ _ stays (reads expr rfl) insist
  | enterHidden expr insist => exact h.enterFrame _ _ stays (reads expr rfl) insist
  | attempt => exact .opened h
  | within name => cases stays

theorem closeBody (h : Alongside common written s₀ t₀ s t) {header : Section}
    (stays : header.stays) (o : Outcome) :
    EndsAlike (Alongside common written s₀ t₀) (closeBody header o s) (closeBody header o t) := by
  cases header with
  | enter expr insist forget => exact h.leaveFrame _ o
  | enterHidden expr insist => exact h.leaveFrame _ o
  | attempt => exact ⟨h.step _ _, rfl⟩
  | within name => cases stays

end Alongside

/-- **One script in two sessions.** A script that stays on the current stack does the same in any
two sessions that agree on that stack, on the places that the script mentions and on what frames
carry. -/
theorem run_alongside {common written : Place → Prop} {s₀ t₀ s t : Session} {p : Script}
    (stays : p.Stays) (mentions : ∀ place ∈ p.mentions, common place)
    (writes : ∀ place ∈ p.writes, written place) (h : Alongside common written s₀ t₀ s t) :
    EndsAlike (Alongside common written s₀ t₀) (s.run p) (t.run p) := by
  refine run_alike p ?_ ?_ ?_ s t h
  · intro c hc s t h
    exact h.act (stays.1 c hc)
      (fun place hp => mentions place
        (List.mem_append_left _ (List.mem_flatMap.mpr ⟨c, hc, hp⟩)))
      (fun place hp => writes place (List.mem_flatMap.mpr ⟨c, hc, hp⟩))
  · intro header hb s t h
    exact h.openBody (stays.2 header hb)
      (fun place hp => mentions place
        (List.mem_append_right _ (List.mem_flatMap.mpr ⟨header, hb, hp⟩)))
  · exact fun header hb o s t h => h.closeBody (stays.2 header hb) o

end Session

end CallPath
