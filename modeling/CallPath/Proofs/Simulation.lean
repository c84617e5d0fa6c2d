import CallPath.Program

/-!
# What a run keeps, and two runs side by side

Control flow is said once, in `Program.run`, so what it keeps is proved once too. A property
that acts and blocks keep is kept by every program, and so is anything that every block puts
back as soon as its body has ended, whichever way it ended, because no block is left open.

Two hosts that open, act and close alike on related states run every program alike: the
states stay related and the outcomes correspond. Where two hosts can part, the same holds up
to the point where they do, and what is then known of the two runs has to be something that
no later step of either can undo.
-/

namespace CallPath

variable {α β σ τ : Type}

namespace Program

/-- The acts that occur in a program. -/
def acts : Program α β → List α
  | done => []
  | act a rest => a :: rest.acts
  | block _ body rest => body.acts ++ rest.acts
  | loop _ body rest => body.acts ++ rest.acts

/-- The blocks that occur in a program. -/
def blocks : Program α β → List β
  | done => []
  | act _ rest => rest.blocks
  | block b body rest => b :: (body.blocks ++ rest.blocks)
  | loop _ body rest => body.blocks ++ rest.blocks

end Program

/-- The state after opening a block, whether its body is to run or not. -/
def Opening.state : Opening σ → σ
  | opened s => s
  | skipped s _ => s

/-! ## What a run keeps and puts back -/

theorem andThen_keeps {P : σ → Prop} {x : σ × Outcome} {k : σ → σ × Outcome} (h : P x.1)
    (next : ∀ s, P s → P (k s).1) : P (andThen x k).1 := by
  obtain ⟨s, o⟩ := x
  cases o with
  | returned => exact next s h
  | failed cause => exact h
  | panicked message => exact h
  | crashed => exact h

theorem repeat_keeps {P : σ → Prop} {k : σ → σ × Outcome} (body : ∀ s, P s → P (k s).1)
    (n : Nat) : ∀ s, P s → P (repeatWhileReturned k n s).1 := by
  induction n with
  | zero => exact fun s h => h
  | succ n ih => exact fun s h => andThen_keeps (body s h) ih

/-- **What acts and blocks keep, a run keeps,** and what every block puts back when its body
has ended, a run ends with. A block may count on both when it is closed: its body kept what
is to be kept, and ended with what it began with. -/
theorem run_keeps_and_restores {γ : Type} {h : Host α β σ} {P : σ → Prop} {f : σ → γ}
    (p : Program α β)
    (act : ∀ a ∈ p.acts, ∀ s, P s → P (h.act a s).1 ∧ f (h.act a s).1 = f s)
    (skip : ∀ b ∈ p.blocks, ∀ s t o, P s → h.enter b s = .skipped t o → P t ∧ f t = f s)
    (close : ∀ b ∈ p.blocks, ∀ s t, P s → h.enter b s = .opened t →
      P t ∧ ∀ o u, P u → f u = f t → P (h.leave b o u).1 ∧ f (h.leave b o u).1 = f s) :
    ∀ s, P s → P (p.run h s).1 ∧ f (p.run h s).1 = f s := by
  -- the hypotheses are about the acts and blocks of the whole program, so each part of it
  -- takes those about its own
  induction p with
  | done => exact fun s hs => ⟨hs, rfl⟩
  | act a rest ih =>
      intro s hs
      have later := ih (fun a' ha' => act a' (List.mem_cons_of_mem a ha')) skip close
      exact andThen_keeps (P := fun u => P u ∧ f u = f s) (act a List.mem_cons_self s hs)
        (fun t ht => ⟨(later t ht.1).1, (later t ht.1).2.trans ht.2⟩)
  | block b body rest ihBody ihRest =>
      intro s hs
      have hbody : ∀ b' ∈ body.blocks, b' ∈ (Program.block b body rest).blocks :=
        fun b' hb' => List.mem_cons_of_mem b (List.mem_append_left _ hb')
      have hrest : ∀ b' ∈ rest.blocks, b' ∈ (Program.block b body rest).blocks :=
        fun b' hb' => List.mem_cons_of_mem b (List.mem_append_right _ hb')
      have inside := ihBody (fun a ha => act a (List.mem_append_left _ ha))
        (fun b' hb' => skip b' (hbody b' hb')) (fun b' hb' => close b' (hbody b' hb'))
      have later := ihRest (fun a ha => act a (List.mem_append_right _ ha))
        (fun b' hb' => skip b' (hrest b' hb')) (fun b' hb' => close b' (hrest b' hb'))
      have next : ∀ t, P t ∧ f t = f s → P (rest.run h t).1 ∧ f (rest.run h t).1 = f s :=
        fun t ht => ⟨(later t ht.1).1, (later t ht.1).2.trans ht.2⟩
      rw [Program.run]
      cases he : h.enter b s with
      | skipped t o =>
          exact andThen_keeps (P := fun u => P u ∧ f u = f s)
            (skip b List.mem_cons_self s t o hs he) next
      | opened t =>
          obtain ⟨opened, closed⟩ := close b List.mem_cons_self s t hs he
          obtain ⟨kept, restored⟩ := inside t opened
          exact andThen_keeps (P := fun u => P u ∧ f u = f s) (closed _ _ kept restored) next
  | loop n body rest ihBody ihRest =>
      intro s hs
      have inside := ihBody (fun a ha => act a (List.mem_append_left _ ha))
        (fun b hb => skip b (List.mem_append_left _ hb))
        (fun b hb => close b (List.mem_append_left _ hb))
      have later := ihRest (fun a ha => act a (List.mem_append_right _ ha))
        (fun b hb => skip b (List.mem_append_right _ hb))
        (fun b hb => close b (List.mem_append_right _ hb))
      refine andThen_keeps (P := fun u => P u ∧ f u = f s) ?_
        (fun t ht => ⟨(later t ht.1).1, (later t ht.1).2.trans ht.2⟩)
      exact repeat_keeps (P := fun u => P u ∧ f u = f s)
        (fun t ht => ⟨(inside t ht.1).1, (inside t ht.1).2.trans ht.2⟩) n s ⟨hs, rfl⟩

/-- A property that acts and blocks keep is kept by a run. -/
theorem run_keeps {h : Host α β σ} {P : σ → Prop} (p : Program α β)
    (act : ∀ a ∈ p.acts, ∀ s, P s → P (h.act a s).1)
    (enter : ∀ b ∈ p.blocks, ∀ s, P s → P (h.enter b s).state)
    (leave : ∀ b ∈ p.blocks, ∀ o s, P s → P (h.leave b o s).1) (s : σ) (hs : P s) :
    P (p.run h s).1 := by
  -- nothing is put back here
  refine (run_keeps_and_restores (f := fun _ => ()) p ?_ ?_ ?_ s hs).1
  · exact fun a ha s hs => ⟨act a ha s hs, rfl⟩
  · intro b hb s t o hs he
    have kept := enter b hb s hs
    rw [he] at kept
    exact ⟨kept, rfl⟩
  · intro b hb s t hs he
    have kept := enter b hb s hs
    rw [he] at kept
    exact ⟨kept, fun o u hu _ => ⟨leave b hb o u hu, rfl⟩⟩

/-- **A program ends with what it began with,** if no act changes it and every block puts
it back as soon as its body does. -/
theorem run_restores {γ : Type} {h : Host α β σ} {f : σ → γ}
    (act : ∀ a s, f (h.act a s).1 = f s)
    (skip : ∀ b s t o, h.enter b s = .skipped t o → f t = f s)
    (close : ∀ b s t, h.enter b s = .opened t → ∀ o u, f u = f t → f (h.leave b o u).1 = f s)
    (p : Program α β) (s : σ) : f (p.run h s).1 = f s := by
  refine (run_keeps_and_restores (P := fun _ => True) p ?_ ?_ ?_ s trivial).2
  · exact fun a _ s _ => ⟨trivial, act a s⟩
  · exact fun b _ s t o _ he => ⟨trivial, skip b s t o he⟩
  · exact fun b _ s t _ he => ⟨trivial, fun o u _ hu => ⟨trivial, close b s t he o u hu⟩⟩

/-- The states that a host can come to from `s` on, by acting and by opening and closing
blocks in any order. -/
inductive Host.Leads (h : Host α β σ) (s : σ) : σ → Prop where
  | stay : h.Leads s s
  | act {t : σ} (a : α) : h.Leads s t → h.Leads s (h.act a t).1
  | enter {t : σ} (b : β) : h.Leads s t → h.Leads s (h.enter b t).state
  | leave {t : σ} (b : β) (o : Outcome) : h.Leads s t → h.Leads s (h.leave b o t).1

theorem Host.Leads.run {h : Host α β σ} {s t : σ} (ht : h.Leads s t) (p : Program α β) :
    h.Leads s (p.run h t).1 :=
  run_keeps p (fun a _ _ hu => .act a hu) (fun b _ _ hu => .enter b hu)
    (fun b _ o _ hu => .leave b o hu) t ht

/-- Opening a block leads to where the block and what follows it end. -/
theorem Host.Leads.block {h : Host α β σ} {s t : σ} {b : β} (ht : h.Leads s (h.enter b t).state)
    (body rest : Program α β) : h.Leads s ((Program.block b body rest).run h t).1 := by
  rw [Program.run]
  cases he : h.enter b t with
  | skipped u o =>
      rw [he] at ht
      exact andThen_keeps ht (fun _ hu => hu.run rest)
  | opened u =>
      rw [he] at ht
      exact andThen_keeps (.leave b _ (ht.run body)) (fun _ hu => hu.run rest)

/-! ## Two runs side by side -/

/-- Two ends that are alike, or two runs that have come apart. -/
def EndsAlikeUnless (D R : σ → τ → Prop) (Q : Outcome → Outcome → Prop) (x : σ × Outcome)
    (y : τ × Outcome) : Prop :=
  D x.1 y.1 ∨ (R x.1 y.1 ∧ Q x.2 y.2)

/-- Two openings that both go on or are both skipped, or two runs that have come apart. -/
inductive OpensAlikeUnless (D R : σ → τ → Prop) (Q : Outcome → Outcome → Prop) :
    Opening σ → Opening τ → Prop where
  | apart {x : Opening σ} {y : Opening τ} : D x.state y.state → OpensAlikeUnless D R Q x y
  | opened {s : σ} {t : τ} : R s t → OpensAlikeUnless D R Q (.opened s) (.opened t)
  | skipped {s : σ} {t : τ} {o o' : Outcome} :
      R s t → Q o o' → OpensAlikeUnless D R Q (.skipped s o) (.skipped t o')

/-- Outcomes that correspond are returns together or not at all. -/
def KeepsReturns (Q : Outcome → Outcome → Prop) : Prop :=
  ∀ o o', Q o o' → (o = .returned ↔ o' = .returned)

theorem andThen_of_ne {x : σ × Outcome} (h : x.2 ≠ .returned) (k : σ → σ × Outcome) :
    andThen x k = x := by
  obtain ⟨s, o⟩ := x
  cases o with
  | returned => exact absurd rfl h
  | failed cause => rfl
  | panicked message => rfl
  | crashed => rfl

section

variable {D R : σ → τ → Prop} {Q : Outcome → Outcome → Prop} {f : σ → σ × Outcome}
  {g : τ → τ × Outcome}

theorem andThen_alike_unless (returns : KeepsReturns Q) {x : σ × Outcome} {y : τ × Outcome}
    (ends : EndsAlikeUnless D R Q x y) (left : ∀ s t, D s t → D (f s).1 t)
    (right : ∀ s t, D s t → D s (g t).1)
    (next : ∀ s t, R s t → EndsAlikeUnless D R Q (f s) (g t)) :
    EndsAlikeUnless D R Q (andThen x f) (andThen y g) := by
  rcases ends with parted | ⟨related, same⟩
  · have onLeft : D (andThen x f).1 y.1 :=
      andThen_keeps (P := fun s => D s y.1) parted (fun s => left s y.1)
    exact .inl (andThen_keeps (P := fun t => D (andThen x f).1 t) onLeft (right _))
  · by_cases hx : x.2 = .returned
    · have hy := (returns _ _ same).mp hx
      obtain ⟨s, o⟩ := x
      obtain ⟨t, o'⟩ := y
      cases hx
      cases hy
      exact next s t related
    · have hy : y.2 ≠ .returned := fun hy => hx ((returns _ _ same).mpr hy)
      rw [andThen_of_ne hx, andThen_of_ne hy]
      exact .inr ⟨related, same⟩

theorem repeat_alike_unless (returns : KeepsReturns Q) (refl : Q .returned .returned)
    (left : ∀ s t, D s t → D (f s).1 t) (right : ∀ s t, D s t → D s (g t).1)
    (body : ∀ s t, R s t → EndsAlikeUnless D R Q (f s) (g t)) (n : Nat) :
    ∀ s t, R s t →
      EndsAlikeUnless D R Q (repeatWhileReturned f n s) (repeatWhileReturned g n t) := by
  induction n with
  | zero => exact fun s t h => .inr ⟨h, refl⟩
  | succ n ih =>
      intro s t h
      have onLeft : ∀ s t, D s t → D (repeatWhileReturned f n s).1 t := fun s t =>
        repeat_keeps (P := fun s => D s t) (fun s => left s t) n s
      have onRight : ∀ s t, D s t → D s (repeatWhileReturned g n t).1 := fun s t =>
        repeat_keeps (P := fun t => D s t) (right s) n t
      exact andThen_alike_unless returns (body s t h) onLeft onRight ih

end

/-- **Hosts that do alike run alike, until they come apart.** Only the acts and blocks of the
program at hand have to be done alike, and no step of either host may undo what is known of
two runs that have come apart. -/
theorem run_alike_unless {h : Host α β σ} {k : Host α β τ} {D R : σ → τ → Prop}
    {Q : Outcome → Outcome → Prop} (returns : KeepsReturns Q) (refl : Q .returned .returned)
    (apart : ∀ s s' t t', D s t → h.Leads s s' → k.Leads t t' → D s' t') (p : Program α β)
    (act : ∀ a ∈ p.acts, ∀ s t, R s t → EndsAlikeUnless D R Q (h.act a s) (k.act a t))
    (enter : ∀ b ∈ p.blocks, ∀ s t, R s t → OpensAlikeUnless D R Q (h.enter b s) (k.enter b t))
    (leave : ∀ b ∈ p.blocks, ∀ o o' s t, R s t → Q o o' →
      EndsAlikeUnless D R Q (h.leave b o s) (k.leave b o' t)) :
    ∀ s t, R s t → EndsAlikeUnless D R Q (p.run h s) (p.run k t) := by
  have left : ∀ (q : Program α β) s t, D s t → D (q.run h s).1 t :=
    fun q s t hd => apart _ _ _ _ hd (Host.Leads.stay.run q) .stay
  have right : ∀ (q : Program α β) s t, D s t → D s (q.run k t).1 :=
    fun q s t hd => apart _ _ _ _ hd .stay (Host.Leads.stay.run q)
  induction p with
  | done => exact fun s t hst => .inr ⟨hst, refl⟩
  | act a rest ih =>
      intro s t hst
      have later := ih (fun a' ha' => act a' (List.mem_cons_of_mem a ha')) enter leave
      exact andThen_alike_unless returns (act a List.mem_cons_self s t hst) (left rest)
        (right rest) later
  | block b body rest ihBody ihRest =>
      intro s t hst
      have hbody : ∀ b' ∈ body.blocks, b' ∈ (Program.block b body rest).blocks :=
        fun b' hb' => List.mem_cons_of_mem b (List.mem_append_left _ hb')
      have hrest : ∀ b' ∈ rest.blocks, b' ∈ (Program.block b body rest).blocks :=
        fun b' hb' => List.mem_cons_of_mem b (List.mem_append_right _ hb')
      have inside := ihBody (fun a ha => act a (List.mem_append_left _ ha))
        (fun b' hb' => enter b' (hbody b' hb')) (fun b' hb' => leave b' (hbody b' hb'))
      have later := ihRest (fun a ha => act a (List.mem_append_right _ ha))
        (fun b' hb' => enter b' (hrest b' hb')) (fun b' hb' => leave b' (hrest b' hb'))
      have first := enter b List.mem_cons_self s t hst
      have last := leave b List.mem_cons_self
      have onward : ∀ x y, EndsAlikeUnless D R Q x y →
          EndsAlikeUnless D R Q (andThen x (rest.run h)) (andThen y (rest.run k)) :=
        fun x y hxy => andThen_alike_unless returns hxy (left rest) (right rest) later
      generalize hx : h.enter b s = x at first
      generalize hy : k.enter b t = y at first
      cases first with
      | apart parted =>
          rw [← hx, ← hy] at parted
          exact .inl (apart _ _ _ _ parted (Host.Leads.stay.block body rest)
            (Host.Leads.stay.block body rest))
      | skipped hst' same =>
          rw [Program.run, Program.run, hx, hy]
          exact onward _ _ (.inr ⟨hst', same⟩)
      | opened hst' =>
          rw [Program.run, Program.run, hx, hy]
          rcases inside _ _ hst' with parted | ⟨related, same⟩
          · exact onward _ _ (.inl (apart _ _ _ _ parted (.leave b _ .stay) (.leave b _ .stay)))
          · exact onward _ _ (last _ _ _ _ related same)
  | loop n body rest ihBody ihRest =>
      intro s t hst
      have inside := ihBody (fun a ha => act a (List.mem_append_left _ ha))
        (fun b hb => enter b (List.mem_append_left _ hb))
        (fun b hb => leave b (List.mem_append_left _ hb))
      have later := ihRest (fun a ha => act a (List.mem_append_right _ ha))
        (fun b hb => enter b (List.mem_append_right _ hb))
        (fun b hb => leave b (List.mem_append_right _ hb))
      have rounds := repeat_alike_unless returns refl (left body) (right body) inside n s t hst
      exact andThen_alike_unless returns rounds (left rest) (right rest) later

/-- Two ends with one outcome. -/
def EndsAlike (R : σ → τ → Prop) (x : σ × Outcome) (y : τ × Outcome) : Prop :=
  R x.1 y.1 ∧ x.2 = y.2

/-- Two openings that both go on, or that are both skipped with one outcome. -/
inductive OpensAlike (R : σ → τ → Prop) : Opening σ → Opening τ → Prop where
  | opened {s : σ} {t : τ} : R s t → OpensAlike R (.opened s) (.opened t)
  | skipped {s : σ} {t : τ} {o : Outcome} : R s t → OpensAlike R (.skipped s o) (.skipped t o)

/-- **Hosts that do alike run alike.** These never come apart, and have the same outcomes. -/
theorem run_alike {h : Host α β σ} {k : Host α β τ} {R : σ → τ → Prop} (p : Program α β)
    (act : ∀ a ∈ p.acts, ∀ s t, R s t → EndsAlike R (h.act a s) (k.act a t))
    (enter : ∀ b ∈ p.blocks, ∀ s t, R s t → OpensAlike R (h.enter b s) (k.enter b t))
    (leave : ∀ b ∈ p.blocks, ∀ o s t, R s t → EndsAlike R (h.leave b o s) (k.leave b o t))
    (s : σ) (t : τ) (hst : R s t) : EndsAlike R (p.run h s) (p.run k t) := by
  have never : ∀ x y, EndsAlike R x y → EndsAlikeUnless (fun _ _ => False) R Eq x y :=
    fun x y hxy => .inr hxy
  have ends : EndsAlikeUnless (fun _ _ => False) R Eq (p.run h s) (p.run k t) := by
    refine run_alike_unless ?_ rfl ?_ p ?_ ?_ ?_ s t hst
    · intro o o' same
      rw [same]
    · exact fun _ _ _ _ parted _ _ => parted
    · exact fun a ha s t hst => never _ _ (act a ha s t hst)
    · intro b hb s t hst
      have opens := enter b hb s t hst
      generalize h.enter b s = x at opens ⊢
      generalize k.enter b t = y at opens ⊢
      cases opens with
      | opened hst => exact .opened hst
      | skipped hst => exact .skipped hst rfl
    · intro b hb o o' s t hst same
      rw [← same]
      exact never _ _ (leave b hb o s t hst)
  rcases ends with parted | alike
  · exact parted.elim
  · exact alike

/-! ## The states that a run passes -/

/-- A state, and those that were passed on the way to it, latest first. -/
structure Trail (σ : Type) where
  state : σ
  passed : List σ := []

def Trail.states (t : Trail σ) : List σ := t.state :: t.passed

def Trail.go (t : Trail σ) (s : σ) : Trail σ := { state := s, passed := t.states }

/-- The same host, on states that remember those before them. -/
def Host.trailing (h : Host α β σ) : Host α β (Trail σ) where
  act a t := (t.go (h.act a t.state).1, (h.act a t.state).2)
  enter b t :=
    match h.enter b t.state with
    | .opened s => .opened (t.go s)
    | .skipped s o => .skipped (t.go s) o
  leave b o t := (t.go (h.leave b o t.state).1, (h.leave b o t.state).2)

/-- Remembering makes no difference to where a run goes and how it ends. -/
theorem run_trailing (h : Host α β σ) (p : Program α β) (t : Trail σ) :
    ((p.run h.trailing t).1.state, (p.run h.trailing t).2) = p.run h t.state := by
  have alike : EndsAlike (fun t s => t.state = s) (p.run h.trailing t) (p.run h t.state) := by
    refine run_alike p ?_ ?_ ?_ t t.state rfl
    · rintro a - t _ rfl
      exact ⟨rfl, rfl⟩
    · rintro b - t _ rfl
      show OpensAlike _ (match h.enter b t.state with
        | .opened s => .opened (t.go s)
        | .skipped s o => .skipped (t.go s) o) _
      cases h.enter b t.state with
      | opened s => exact .opened rfl
      | skipped s o => exact .skipped rfl
    · rintro b - o t _ rfl
      exact ⟨rfl, rfl⟩
  exact Prod.ext alike.1 alike.2

/-- **What holds all along a run,** under the hypotheses of `run_keeps_and_restores`. -/
theorem trail_keeps_and_restores {γ : Type} {h : Host α β σ} {P : σ → Prop} {f : σ → γ}
    (p : Program α β)
    (act : ∀ a ∈ p.acts, ∀ s, P s → P (h.act a s).1 ∧ f (h.act a s).1 = f s)
    (skip : ∀ b ∈ p.blocks, ∀ s t o, P s → h.enter b s = .skipped t o → P t ∧ f t = f s)
    (close : ∀ b ∈ p.blocks, ∀ s t, P s → h.enter b s = .opened t →
      P t ∧ ∀ o u, P u → f u = f t → P (h.leave b o u).1 ∧ f (h.leave b o u).1 = f s)
    (s : σ) (hs : P s) :
    (∀ t ∈ (p.run h.trailing { state := s }).1.states, P t) ∧ f (p.run h s).1 = f s := by
  have go : ∀ (t : Trail σ) (s : σ), (∀ u ∈ t.states, P u) → P s → ∀ u ∈ (t.go s).states, P u :=
    fun t s before hs => List.forall_mem_cons.mpr ⟨hs, before⟩
  have trail := run_keeps_and_restores (h := h.trailing) (P := fun t => ∀ u ∈ t.states, P u)
    (f := fun t => f t.state) p ?_ ?_ ?_ { state := s } (List.forall_mem_singleton.mpr hs)
  · have ended := congrArg Prod.fst (run_trailing h p { state := s })
    refine ⟨trail.1, ?_⟩
    rw [← ended]
    exact trail.2
  · intro a ha t before
    obtain ⟨kept, same⟩ := act a ha t.state (before _ List.mem_cons_self)
    exact ⟨go t _ before kept, same⟩
  · intro b hb t t' o before he
    cases hs : h.enter b t.state with
    | opened s => simp only [Host.trailing, hs] at he; cases he
    | skipped s o =>
        simp only [Host.trailing, hs] at he
        cases he
        obtain ⟨kept, same⟩ := skip b hb t.state s o (before _ List.mem_cons_self) hs
        exact ⟨go t s before kept, same⟩
  · intro b hb t t' before he
    cases hs : h.enter b t.state with
    | skipped s o => simp only [Host.trailing, hs] at he; cases he
    | opened s =>
        simp only [Host.trailing, hs] at he
        cases he
        obtain ⟨kept, closed⟩ := close b hb t.state s (before _ List.mem_cons_self) hs
        refine ⟨go t s before kept, fun o u inside same => ?_⟩
        obtain ⟨after, back⟩ := closed o u.state (inside _ List.mem_cons_self) same
        exact ⟨go u _ inside after, back⟩

/-- A property that acts and blocks keep holds all along a run. -/
theorem trail_keeps {h : Host α β σ} {P : σ → Prop} (p : Program α β)
    (act : ∀ a ∈ p.acts, ∀ s, P s → P (h.act a s).1)
    (enter : ∀ b ∈ p.blocks, ∀ s, P s → P (h.enter b s).state)
    (leave : ∀ b ∈ p.blocks, ∀ o s, P s → P (h.leave b o s).1) (s : σ) (hs : P s) :
    ∀ t ∈ (p.run h.trailing { state := s }).1.states, P t := by
  -- nothing is put back here
  refine (trail_keeps_and_restores (f := fun _ => ()) p ?_ ?_ ?_ s hs).1
  · exact fun a ha s hs => ⟨act a ha s hs, rfl⟩
  · intro b hb s t o hs he
    have kept := enter b hb s hs
    rw [he] at kept
    exact ⟨kept, rfl⟩
  · intro b hb s t hs he
    have kept := enter b hb s hs
    rw [he] at kept
    exact ⟨kept, fun o u hu _ => ⟨leave b hb o u hu, rfl⟩⟩

end CallPath
