import CallPath.Descent

/-!
# Where handles go

A call is given handles, hands some over with its answer, makes some and gives some up; the
rest stay with the machine. Nothing else can become of a handle, so what there was before a
move, with what the move was given and what it made, is what there is afterwards, with what
it handed over and gave up (`Machine.step_conserves`). This holds of calls that are refused
too, of entries that are turned away, and of guards that are left on a stack that lost its
balance: whichever frame is then in the slot is given up, and with it the handle of the guard.

Handles are made from handles only. Whoever makes one has another, or it is for the sentinel,
whose owner always has one.
-/

namespace CallPath

variable {φ : Type}

variable [Sentinel φ] [DecidableEq φ]

/-- Neither loses a handle nor makes one up: the handles of the machine `m`, those it was given
and those that were made are those that the machine is left with, those that were handed over
and those that were given up. -/
structure Transition.Conserves (t : Transition φ) (m : Machine φ) (given : List φ) : Prop where
  handles : (m.handles ++ given ++ t.effect.cloned).Perm
    (t.machine.handles ++ t.answer.kept ++ t.effect.dropped)
  made : ∀ frame ∈ t.effect.cloned, frame = Sentinel.native ∨ frame ∈ m.handles ++ given

/-! ## Calls -/

namespace Stack

variable (s : Stack φ)

omit [DecidableEq φ] in
theorem get_eq_native_or_mem (level : Nat) :
    s.get level = Sentinel.native ∨ s.get level ∈ s.toList := by
  rw [get, frame?_eq]
  cases hf : s.toList[level]? with
  | none => exact .inl rfl
  | some frame => exact .inr (List.mem_of_getElem? hf)

/-- A call makes handles only to what it finds on the stack, or to the sentinel below it. -/
theorem cloned_call (c : Call φ) :
    ∀ frame ∈ (s.call c).effect.cloned, frame = Sentinel.native ∨ frame ∈ s.toList := by
  cases c with
  | get level =>
      intro frame hf
      rw [List.mem_singleton.mp hf]
      exact s.get_eq_native_or_mem level
  | top =>
      intro frame hf
      rw [List.mem_singleton.mp hf]
      exact s.get_eq_native_or_mem 0
  | list => exact fun frame hf => .inr hf
  | copy => exact fun frame hf => .inr hf
  | pop => cases hs : s.pop? <;> simp [call, hs]
  | swap frame => cases hs : s.swap? frame <;> simp [call, hs]
  | set level frame => cases hs : s.set? level frame <;> simp [call, hs]
  | _ => exact fun frame hf => absurd hf List.not_mem_nil

omit [Sentinel φ] in
/-- What a strict write replaces comes out for what goes in. -/
theorem perm_set {level : Nat} {frame old : φ} {next : Stack φ}
    (written : s.set? level frame = some (old, next)) :
    (s.toList ++ [frame]).Perm (next.toList ++ [old]) := by
  obtain ⟨found, frames, -⟩ := set?_eq_some.mp written
  obtain ⟨inside, rfl⟩ := List.getElem?_eq_some_iff.mp found
  obtain ⟨above, below, before, -, after⟩ := @List.exists_of_set _ _ frame _ inside
  rw [frames, after]
  generalize s.toList[level] = old at before ⊢
  rw [before]
  refine List.perm_iff_count.mpr (fun a => ?_)
  simp only [List.count_append, List.count_cons, List.count_nil]
  omega

/-- **No call loses a handle or makes one up,** whether it succeeds or is refused. -/
theorem call_conserves (c : Call φ) :
    (s.toList ++ c.given ++ (s.call c).effect.cloned).Perm
      ((s.call c).stack.toList ++ (s.call c).answer.kept ++ (s.call c).effect.dropped) := by
  have held : ∀ made : List φ, (s.toList ++ [] ++ made).Perm (s.toList ++ made ++ []) := by simp
  cases c with
  | push frame =>
      show (s.toList ++ [frame] ++ []).Perm ((s.push frame).toList ++ [] ++ [])
      rw [toList_push]
      simp
  | pop =>
      cases hs : s.pop? with
      | none => rw [call_pop_of_none hs]; exact held []
      | some popped =>
          obtain ⟨frames, -⟩ := pop?_eq_some.mp hs
          rw [call_pop_of_some hs]
          show (s.toList ++ [] ++ []).Perm (popped.2.toList ++ [popped.1] ++ [])
          rw [frames, List.append_nil, List.append_nil, List.append_nil]
          exact (List.perm_append_singleton _ _).symm
  | swap frame =>
      cases hs : s.swap? frame with
      | none => rw [call_swap_of_none hs]; simp [Call.given, Answer.kept]
      | some swapped =>
          have perm := s.perm_set (swap?_eq s frame ▸ hs)
          rw [call_swap_of_some hs]
          simpa [Call.given, Answer.kept] using perm
  | set level frame =>
      cases hs : s.set? level frame with
      | none => rw [call_set_of_none hs]; simp [Call.given, Answer.kept]
      | some written =>
          have perm := s.perm_set hs
          rw [call_set_of_some hs]
          simpa [Call.given, Answer.kept] using perm
  | clear =>
      show (s.toList ++ [] ++ []).Perm ([] ++ [] ++ s.toList)
      simp
  | replace next =>
      show (s.toList ++ next.toList ++ []).Perm (next.toList ++ s.toList ++ [])
      simpa using List.perm_append_comm
  | _ => exact held _

end Stack

/-! ## Moves -/

namespace Machine

theorem release_conserves (s : Stack φ) (guard : Guard φ) :
    (s.toList ++ [guard.frame]).Perm
      ((release s guard).1.toList ++ (release s guard).2.dropped) := by
  by_cases balanced : s.depth = guard.entryDepth + 1
  · obtain ⟨frame, rest, hp, -⟩ := Stack.pop?_of_depth balanced
    obtain ⟨frames, -⟩ := Stack.pop?_eq_some.mp hp
    rw [release_balanced balanced hp, frames]
    refine List.perm_iff_count.mpr (fun a => ?_)
    simp only [List.count_append, List.count_cons, List.count_nil]
    omega
  · rw [release_unbalanced balanced, ← s.beyond_append_truncate guard.entryDepth]
    refine List.perm_iff_count.mpr (fun a => ?_)
    simp only [List.count_append]
    omega

theorem cloned_release (s : Stack φ) (guard : Guard φ) : (release s guard).2.cloned = [] := by
  unfold release
  split <;> rfl

theorem enter_conserves (m : Machine φ) (manner : Manner) (frame : φ) :
    (m.enter manner frame).Conserves m [frame] := by
  cases hr : m.stack.limit.refusal? m.stack.depth with
  | some limit =>
      rw [enter_refused hr]
      refine ⟨?_, nofun⟩
      show (m.handles ++ [frame] ++ []).Perm (m.handles ++ [] ++ [frame])
      simp
  | none =>
      rw [enter_accepted hr]
      refine ⟨List.perm_iff_count.mpr (fun a => ?_), fun f hf => .inr ?_⟩
      · -- one handle for the slot and one for the guard
        simp only [handles, Stack.toList_push, Answer.kept, List.map_cons, List.count_append,
          List.count_cons, List.count_nil]
        omega
      · exact List.mem_append_right _ hf

theorem leave_conserves (m : Machine φ) : m.leave.Conserves m [] := by
  cases hg : m.guards with
  | nil =>
      rw [leave_of_nil hg]
      exact ⟨.refl _, nofun⟩
  | cons guard rest =>
      have released := release_conserves m.stack guard
      rw [leave_of_cons hg]
      refine ⟨List.perm_iff_count.mpr (fun a => ?_), ?_⟩
      · have counts := released.count_eq a
        simp only [handles, hg, cloned_release, Answer.kept, List.map_cons, List.count_append,
          List.count_cons, List.count_nil] at counts ⊢
        omega
      · rw [cloned_release]
        nofun

omit [DecidableEq φ] in
theorem forget_conserves [DecidableEq φ] (m : Machine φ) : m.forget.Conserves m [] := by
  obtain ⟨stack, guards, forgotten⟩ := m
  cases guards with
  | nil => exact ⟨.refl _, nofun⟩
  | cons guard rest =>
      refine ⟨List.perm_iff_count.mpr (fun a => ?_), nofun⟩
      simp only [forget, handles, Answer.kept, List.map_cons, List.count_append, List.count_cons,
        List.count_nil]
      omega

/-- **No move loses a handle or makes one up.** -/
theorem step_conserves (m : Machine φ) (mv : Move φ) : (m.step mv).Conserves m mv.given := by
  cases mv with
  | call c =>
      refine ⟨List.perm_iff_count.mpr (fun a => ?_), fun f hf => ?_⟩
      · have counts := (m.stack.call_conserves c).count_eq a
        simp only [step, call, handles, Move.given, List.count_append] at counts ⊢
        omega
      · refine (m.stack.cloned_call c f hf).imp_right (fun there => ?_)
        exact List.mem_append_left _ (List.mem_append_left _ (List.mem_append_left _ there))
  | enter manner frame => exact m.enter_conserves manner frame
  | leave => exact m.leave_conserves
  | forget => exact m.forget_conserves

end Machine

/-! ## Guarded recursion -/

/-- One transition after another, the first of which hands nothing over. -/
theorem Transition.Conserves.andThen {m : Machine φ} {t u : Transition φ} {given more : List φ}
    (first : t.Conserves m given) (kept : t.answer.kept = [])
    (second : u.Conserves t.machine more) :
    ({ u with effect := t.effect.andThen u.effect } : Transition φ).Conserves m
      (given ++ more) where
  handles := by
    refine List.perm_iff_count.mpr (fun a => ?_)
    have before := first.handles.count_eq a
    have after := second.handles.count_eq a
    simp only [Effect.andThen, kept, List.count_append, List.count_nil] at before after ⊢
    omega
  made := by
    have earlier : ∀ f ∈ t.effect.cloned,
        f = Sentinel.native ∨ f ∈ m.handles ++ (given ++ more) := by
      intro f hf
      refine (first.made f hf).imp_right (fun there => ?_)
      rw [← List.append_assoc]
      exact List.mem_append_left _ there
    intro f hf
    rcases List.mem_append.mp hf with hf | hf
    · exact earlier f hf
    · rcases second.made f hf with native | there
      · exact .inl native
      · rcases List.mem_append.mp there with held | hm
        · -- what the machine held in between it held before, or was given, or made
          have source := first.handles.mem_iff.mpr
            (List.mem_append_left _ (List.mem_append_left _ held))
          rcases List.mem_append.mp source with old | new
          · rw [← List.append_assoc]
            exact .inr (List.mem_append_left _ old)
          · exact earlier f new
        · exact .inr (List.mem_append_right _ (List.mem_append_right _ hm))

/-- The call around another one: its frame was entered before, and is left after. -/
def Descent.inside (entry : Transition φ) (inner : Descent φ) : Descent φ :=
  { result := inner.result
    machine := inner.machine.leave.machine
    effect := (entry.effect.andThen inner.effect).andThen inner.machine.leave.effect
    frames := inner.frames + 1 }

/-- A recursion that was given frames conserves handles, and leaves no guard behind. -/
structure Descent.Conserves (d : Descent φ) (m : Machine φ) (given : List φ) : Prop where
  transition : Transition.Conserves { machine := d.machine, effect := d.effect } m given
  guards : d.machine.guards = m.guards
  forgotten : d.machine.forgotten = m.forgotten

section

variable {fresh : Nat → φ} {i : Nat} {m : Machine φ}

theorem Machine.descend_refused {limit : Nat}
    (h : m.stack.limit.refusal? m.stack.depth = some limit) (n : Nat) :
    m.descend fresh i n =
      { result := .error (.recursionLimit limit), machine := m
        effect := { events := [.refused m.stack.depth limit], dropped := [fresh i] }
        frames := 1 } := by
  cases n <;> simp only [descend, enter_refused h, Answer.fault?]

theorem Machine.descend_zero (h : m.stack.limit.refusal? m.stack.depth = none) :
    let entry := m.enter .reachable (fresh i)
    m.descend fresh i 0 = .inside entry
      { result := .ok entry.machine.stack.depth, machine := entry.machine, frames := 0 } := by
  simp only [descend, enter_accepted h, Answer.fault?, Descent.inside]

theorem Machine.descend_succ (h : m.stack.limit.refusal? m.stack.depth = none) (n : Nat) :
    let entry := m.enter .reachable (fresh i)
    m.descend fresh i (n + 1) = .inside entry (entry.machine.descend fresh (i + 1) n) := by
  simp only [descend, enter_accepted h, Answer.fault?, Descent.inside]

theorem Descent.Conserves.inside (h : m.stack.limit.refusal? m.stack.depth = none) {frame : φ}
    {inner : Descent φ} {given : List φ}
    (back : inner.Conserves (m.enter .reachable frame).machine given) :
    (Descent.inside (m.enter .reachable frame) inner).Conserves m (frame :: given) := by
  have entry := m.enter_conserves .reachable frame
  have entered : m.enter .reachable frame = _ := Machine.enter_accepted h
  have way := entry.andThen (by rw [entered]; rfl) back.transition
  have out := way.andThen rfl inner.machine.leave_conserves
  have guards := back.guards
  have forgotten := back.forgotten
  rw [entered] at guards forgotten
  refine ⟨?_, ?_, ?_⟩
  · rwa [Machine.answer_leave, List.append_nil] at out
  · show inner.machine.leave.machine.guards = _
    rw [Machine.leave_of_cons guards]
  · show inner.machine.leave.machine.forgotten = _
    rw [Machine.leave_of_cons guards]
    exact forgotten

/-- **A recursion conserves handles.** It is given the frames that were made for its calls, as
many as it came to, and it leaves every guard again. -/
theorem Machine.descend_conserves (fresh : Nat → φ) (n : Nat) : ∀ (i : Nat) (m : Machine φ),
    (m.descend fresh i n).Conserves m
      ((List.range' i (m.descend fresh i n).frames).map fresh) := by
  have refused : ∀ (n i : Nat) (m : Machine φ) (limit : Nat),
      m.stack.limit.refusal? m.stack.depth = some limit →
      (m.descend fresh i n).Conserves m
        ((List.range' i (m.descend fresh i n).frames).map fresh) := by
    intro n i m limit hr
    rw [descend_refused hr]
    have entry := m.enter_conserves .reachable (fresh i)
    rw [enter_refused hr] at entry
    exact ⟨⟨entry.handles, nofun⟩, rfl, rfl⟩
  induction n with
  | zero =>
      intro i m
      cases hr : m.stack.limit.refusal? m.stack.depth with
      | some limit => exact refused 0 i m limit hr
      | none =>
          rw [descend_zero hr]
          exact .inside hr ⟨⟨.refl _, nofun⟩, rfl, rfl⟩
  | succ n ih =>
      intro i m
      cases hr : m.stack.limit.refusal? m.stack.depth with
      | some limit => exact refused (n + 1) i m limit hr
      | none =>
          rw [descend_succ hr]
          exact .inside hr (ih (i + 1) _)

end

end CallPath
