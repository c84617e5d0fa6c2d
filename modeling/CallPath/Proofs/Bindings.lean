import CallPath.Proofs.HandleConservation

/-!
# What frames carry

Stacks share their frames, and what a frame carries is written down in one place, the registry.
Frames are never taken out of it, and a binding changes only when its identifier is defined anew
in the same frame. So whatever a script does that does not define an identifier, every frame has
the binding for it that it had before (`run_keeps_bindings`), no matter on which stacks the
frame was in the meantime.
-/

namespace CallPath

/-! ## Registries -/

namespace Registry

/-- Every frame is still there and has the binding for `ident` that it had. -/
def Keeps (ident : String) (r r' : Registry) : Prop :=
  ∀ frame, r.has frame = true → r'.has frame = true ∧ r'.resolve frame ident = r.resolve frame ident

variable {ident : String} {r r' r'' : Registry} {frame : Frame}

theorem Keeps.refl (ident : String) (r : Registry) : r.Keeps ident r := fun _ there => ⟨there, rfl⟩

theorem Keeps.trans (h : r.Keeps ident r') (h' : r'.Keeps ident r'') : r.Keeps ident r'' :=
  fun frame there =>
    have first := h frame there
    have second := h' frame first.1
    ⟨second.1, second.2.trans first.2⟩

theorem Keeps.of_eq (h : r' = r) : r.Keeps ident r' := h ▸ Keeps.refl ident r'

/-- A new frame takes the place of none. -/
theorem keeps_create (ident : String) (r : Registry) (name : String) (mute : Bool) :
    r.Keeps ident (r.create name mute) := by
  intro frame there
  cases frame with
  | native => exact ⟨rfl, rfl⟩
  | numbered index =>
      have inside : index < r.scopes.size := of_decide_eq_true there
      have kept : (r.create name mute).scopes[index]? = r.scopes[index]? :=
        Array.getElem?_push_lt inside ▸ (Array.getElem?_eq_getElem inside).symm
      refine ⟨decide_eq_true ?_, ?_⟩
      · rw [create, Array.size_push]
        omega
      · simp only [resolve, scope, kept]

/-- A definition is about one frame. -/
theorem scope_define {other : Frame} (there : r.has other = true) (frame : Frame) (ident : String)
    (value : Int) :
    (r.define frame ident value).scope other
      = if frame = other then
          { r.scope other with bindings := (r.scope other).bindings.insert ident value }
        else r.scope other := by
  cases frame with
  | native => cases other <;> rfl
  | numbered index =>
      cases other with
      | native => rfl
      | numbered other =>
          have inside : other < r.scopes.size := of_decide_eq_true there
          simp only [define, scope, Array.getElem?_modify, Frame.numbered.injEq,
            Array.getElem?_eq_getElem inside]
          by_cases same : index = other
          · rw [if_pos same, if_pos same]
            rfl
          · rw [if_neg same, if_neg same]

theorem resolve_define (there : r.has frame = true) (ident : String) (value : Int) :
    (r.define frame ident value).resolve frame ident = some value := by
  rw [resolve, scope_define there, if_pos rfl, Table.find?_insert, if_pos rfl]

theorem has_define (r : Registry) (frame : Frame) (ident : String) (value : Int) (other : Frame) :
    (r.define frame ident value).has other = r.has other := by
  cases frame with
  | native => cases other <;> rfl
  | numbered index =>
      cases other with
      | native => rfl
      | numbered other => simp [define, has]

/-- A definition leaves the bindings for other identifiers alone. -/
theorem keeps_define {other : String} (different : other ≠ ident) (frame : Frame) (value : Int) :
    r.Keeps ident (r.define frame other value) := by
  intro f there
  refine ⟨(r.has_define frame other value f).trans there, ?_⟩
  rw [resolve, scope_define there]
  by_cases same : frame = f
  · rw [if_pos same, Table.find?_insert, if_neg different]
    rfl
  · rw [if_neg same]
    rfl

end Registry

namespace Session

variable {ident : String} {s t u : Session} {frame : Frame}

/-- Whoever holds a frame holds one that was created. -/
theorem Balanced.has_of_mem {around : Surroundings} {hand : List Frame}
    (h : s.Balanced around hand) (held : frame ∈ s.handles ++ hand) :
    s.registry.has frame = true := by
  cases frame with
  | native => rfl
  | numbered index =>
      have counted : 0 < (s.ledger.counts[index]?).getD 0 := h.live (.inr held)
      refine decide_eq_true (Nat.lt_of_not_le (fun outside => ?_))
      rw [← h.accounts] at outside
      rw [Array.getElem?_eq_none outside] at counted
      exact Nat.lt_irrefl 0 counted

/-! ## Commands -/

theorem registry_conclude (s : Session) (save : Option String) (answer : Answer Frame) :
    (s.conclude save answer).2.registry = s.registry := by
  cases answer with
  | frame frame => cases save <;> rfl
  | frames frames => cases save <;> rfl
  | stack stack => cases save <;> rfl
  | _ => rfl

theorem registry_ask (s : Session) (c : Call Frame) (save : Option String) :
    (s.ask c save).2.registry = s.registry :=
  registry_conclude _ save _

theorem registry_holdClone (s : Session) (save : Option String) (frame : Frame) :
    (s.holdClone save frame).registry = s.registry := by
  cases save <;> rfl

theorem registry_popUpTo (n : Nat) : ∀ s : Session, (s.popUpTo n).2.2.registry = s.registry := by
  induction n with
  | zero => exact fun s => rfl
  | succ n ih =>
      intro s
      have called : (s.call .pop).2.registry = s.registry := rfl
      rw [popUpTo]
      generalize s.call .pop = reply at called
      obtain ⟨answer, u⟩ := reply
      cases answer with
      | frame frame => exact (ih (u.release [frame])).trans called
      | _ => exact called

theorem keeps_eval? {expr : FrameExpr} (evaluated : s.eval? expr = some (frame, t)) :
    s.registry.Keeps ident t.registry := by
  cases expr with
  | held name =>
      obtain ⟨f, -, same⟩ := Option.map_eq_some_iff.mp evaluated
      cases same
      exact .refl _ _
  | fresh name mute =>
      cases evaluated
      exact s.registry.keeps_create ident name mute
  | level level | native =>
      cases evaluated
      exact .refl _ _
  | pushed =>
      obtain ⟨guard, -, same⟩ := Option.map_eq_some_iff.mp evaluated
      cases same
      exact .refl _ _

theorem keeps_build? {expr : StackExpr} {stack : Stack Frame}
    (built : s.build? expr = some (stack, t)) : s.registry.Keeps ident t.registry := by
  cases expr with
  | empty limit =>
      cases built
      exact .refl _ _
  | seeded expr =>
      obtain ⟨⟨frame, u⟩, evaluated, same⟩ := Option.map_eq_some_iff.mp built
      cases same
      have kept : s.registry.Keeps ident u.registry := keeps_eval? evaluated
      exact kept

theorem keeps_pushFresh (name : String) (n : Nat) : ∀ (i : Nat) (s : Session),
    s.registry.Keeps ident (s.pushFresh name i n).registry := by
  induction n with
  | zero => exact fun _ s => .refl _ _
  | succ n ih =>
      intro i s
      exact (s.registry.keeps_create ident (name ++ toString i) false).trans
        (ih (i + 1) ((s.create (name ++ toString i)).2.call _).2)

theorem keeps_createForCalls (name : String) (count : Nat) : ∀ (n : Nat) (s : Session),
    s.registry.Keeps ident (s.createForCalls name n count).registry := by
  induction count with
  | zero => exact fun _ s => .refl _ _
  | succ count ih =>
      intro n s
      exact (s.registry.keeps_create ident _ false).trans (ih (n - 1) (s.create _).2)

/-- What a command does with a frame that an expression names. -/
theorem keeps_with_frame {expr : FrameExpr} {k : Frame × Session → Result × Session}
    {x : Result × Session} (performed : (s.eval? expr).map k = some x)
    (keeps : ∀ frame (u : Session), u.registry.Keeps ident (k (frame, u)).2.registry) :
    s.registry.Keeps ident x.2.registry := by
  obtain ⟨⟨frame, u⟩, evaluated, same⟩ := Option.map_eq_some_iff.mp performed
  rw [← same]
  exact (keeps_eval? evaluated).trans (keeps frame u)

theorem keeps_perform? {c : Command} {x : Result × Session}
    (other : ∀ expr value, c ≠ .define expr ident value) (performed : s.perform? c = some x) :
    s.registry.Keeps ident x.2.registry := by
  have asked (c : Call Frame) (save : Option String) :
      s.registry.Keeps ident (s.ask c save).2.registry := .of_eq (s.registry_ask c save)
  cases c with
  | push expr save =>
      refine keeps_with_frame performed (fun frame u => .of_eq ?_)
      exact (registry_ask _ _ _).trans (u.registry_holdClone save frame)
  | swap expr save =>
      exact keeps_with_frame performed (fun frame u => .of_eq (u.registry_ask _ save))
  | set level expr =>
      exact keeps_with_frame performed (fun frame u => .of_eq (u.registry_ask _ none))
  | isNative expr =>
      exact keeps_with_frame performed (fun frame u => .of_eq (u.registry_ask _ none))
  | bind name expr => exact keeps_with_frame performed (fun frame u => .refl _ _)
  | resolve expr ident => exact keeps_with_frame performed (fun frame u => .refl _ _)
  | define expr defined value =>
      refine keeps_with_frame performed (fun frame u => Registry.keeps_define ?_ frame value)
      rintro rfl
      exact other expr value rfl
  | malformed name expr =>
      obtain ⟨⟨frame, u⟩, evaluated, same⟩ := Option.map_eq_some_iff.mp performed
      obtain ⟨expr, -, evaluated⟩ := Option.bind_eq_some_iff.mp evaluated
      cases same
      have kept : s.registry.Keeps ident u.registry := keeps_eval? evaluated
      exact kept
  | pop save | get level save | top save | list save | take save =>
      cases performed
      exact asked _ save
  | frame level | depth | clear | iterate source calls | limit =>
      cases performed
      exact asked _ none
  | copy name | clone name =>
      cases performed
      exact asked _ (some name)
  | pushMany name n =>
      simp only [Session.perform?] at performed
      split at performed
      · cases performed
        exact .refl _ _
      · obtain ⟨name, -, same⟩ := Option.map_eq_some_iff.mp performed
        cases same
        exact keeps_pushFresh name n 0 s
  | popMany n =>
      cases performed
      exact .of_eq (registry_popUpTo n s)
  | recurse name n =>
      cases performed
      exact keeps_createForCalls name _ n s
  | assign source =>
      obtain ⟨stack, -, same⟩ := Option.map_eq_some_iff.mp performed
      cases same
      exact .of_eq (registry_ask _ _ _)
  | make name expr =>
      obtain ⟨⟨stack, u⟩, built, same⟩ := Option.map_eq_some_iff.mp performed
      cases same
      have kept : s.registry.Keeps ident u.registry := keeps_build? built
      exact kept
  | saved name | dropSaved name | dropStack name | unbind name =>
      obtain ⟨_, -, same⟩ := Option.map_eq_some_iff.mp performed
      cases same
      exact .refl _ _
  | count id =>
      obtain ⟨frame, -, asked⟩ := Option.bind_eq_some_iff.mp performed
      split at asked
      · cases asked
        exact .refl _ _
      · cases asked
  | lookup level ident =>
      simp only [Session.perform?] at performed
      split at performed
      · cases performed
        exact .refl _ _
      · obtain ⟨ident, -, same⟩ := Option.map_eq_some_iff.mp performed
        cases same
        exact .refl _ _
  | render | fail message | panic message => cases performed
  | _ =>
      cases performed
      exact .refl _ _

theorem keeps_act {c : Command} (s : Session)
    (other : ∀ expr value, c ≠ .define expr ident value) :
    s.registry.Keeps ident (s.act c).1.registry := by
  unfold act
  split
  · split <;> exact .refl _ _
  · split <;> exact .refl _ _
  · exact .refl _ _
  · cases performed : s.perform? c with
    | none => exact .refl _ _
    | some x => exact keeps_perform? other performed

/-! ## Bodies and runs -/

theorem keeps_enterFrame (s : Session) (name : String) (manner : Manner) (expr : FrameExpr)
    (insist : Bool) :
    s.registry.Keeps ident (s.enterFrame name manner expr insist).state.registry := by
  unfold enterFrame
  cases evaluated : s.eval? expr with
  | none => exact .refl _ _
  | some x =>
      obtain ⟨frame, u⟩ := x
      have kept : s.registry.Keeps ident u.registry := keeps_eval? evaluated
      dsimp only
      split
      · exact kept
      · exact kept

theorem registry_resume (s : Session) (name : String) : (s.resume name).registry = s.registry := by
  unfold resume
  split <;> rfl

/-- **Bindings last.** A script that does not define an identifier leaves every frame with the
binding for it that the frame had. -/
theorem run_keeps_bindings (s : Session) (p : Script)
    (other : ∀ expr value, .define expr ident value ∉ p.acts) :
    s.registry.Keeps ident (s.run p).1.registry := by
  refine run_keeps (P := fun u => s.registry.Keeps ident u.registry) p ?_ ?_ ?_ s (.refl _ _)
  · intro c hc u kept
    exact kept.trans (u.keeps_act (fun expr value same => other expr value (same ▸ hc)))
  · intro header _ u kept
    refine kept.trans ?_
    cases header with
    | enter expr insist forget => exact u.keeps_enterFrame _ _ expr insist
    | enterHidden expr insist => exact u.keeps_enterFrame _ _ expr insist
    | attempt => exact .refl _ _
    | within name =>
        show u.registry.Keeps ident (openBody (.within name) u).state.registry
        cases found : u.named.find? name with
        | none =>
            rw [openBody_within_none found]
            exact .refl _ _
        | some stack =>
            rw [openBody_within_some found]
            exact .refl _ _
  · intro header _ o u kept
    cases header with
    | within name => exact kept.trans (.of_eq (u.registry_resume name))
    | _ => exact kept

end Session

end CallPath
