import CallPath.Proofs.History
import CallPath.Proofs.TopFirst
import CallPath.Session.Frame

/-!
# Leaving many guards at once

A body deep inside other bodies ends, and nothing is left to be run on the way out: because
it gave up or panicked, or because it returned and was the last thing to do everywhere.
Then the guards are left one after another, the innermost first, on whatever stack the
body left there.

The depths that these guards remember need not increase inwards. A body may have popped
below its own guard before it entered the next one, or have put another stack in the place
of the one it was given. So nothing is assumed about them, and the law is about two numbers
only: the depth found and the depth remembered. The lesser of the two is what remains,
whether the exit pops or cuts, and over many guards it is the least of all.
-/

namespace CallPath

variable {α β σ φ : Type}

/-! ## Inside a run -/

/-- What a block or a loop has still to do when the part inside it has ended. -/
inductive Pending (α β : Type) where
  /-- A block is to be closed, and then what follows it is to be run. -/
  | close (b : β) (rest : Program α β)
  /-- A loop has rounds left, and then what follows it is to be run. -/
  | again (n : Nat) (body rest : Program α β)

/-- Does what is pending when the part inside has ended. -/
def Host.resume (host : Host α β σ) (ended : σ × Outcome) : Pending α β → σ × Outcome
  | .close b rest => andThen (host.leave b ended.2 ended.1) (rest.run host)
  | .again n body rest =>
      andThen (andThen ended (repeatWhileReturned (body.run host) n)) (rest.run host)

/-- `Reaches host p s pending q t` says that a run of `p` from `s` comes to the point where
the part `q` is to be run from `t`, with `pending` to be done after it, the innermost
first. -/
inductive Reaches (host : Host α β σ) :
    Program α β → σ → List (Pending α β) → Program α β → σ → Prop where
  | here {p : Program α β} {s : σ} : Reaches host p s [] p s
  | act {a : α} {rest q : Program α β} {s t u : σ} {pending : List (Pending α β)} :
      host.act a s = (t, .returned) → Reaches host rest t pending q u →
      Reaches host (.act a rest) s pending q u
  | block {b : β} {body rest q : Program α β} {s t u : σ} {pending : List (Pending α β)} :
      (Program.block b body .done).run host s = (t, .returned) →
      Reaches host rest t pending q u → Reaches host (.block b body rest) s pending q u
  | inBlock {b : β} {body rest q : Program α β} {s t u : σ} {pending : List (Pending α β)} :
      host.enter b s = .opened t → Reaches host body t pending q u →
      Reaches host (.block b body rest) s (pending ++ [.close b rest]) q u
  | loop {body rest q : Program α β} {s u : σ} {pending : List (Pending α β)} :
      Reaches host rest s pending q u → Reaches host (.loop 0 body rest) s pending q u
  | round {n : Nat} {body rest q : Program α β} {s t u : σ} {pending : List (Pending α β)} :
      body.run host s = (t, .returned) → Reaches host (.loop n body rest) t pending q u →
      Reaches host (.loop (n + 1) body rest) s pending q u
  | inRound {n : Nat} {body rest q : Program α β} {s u : σ} {pending : List (Pending α β)} :
      Reaches host body s pending q u →
      Reaches host (.loop (n + 1) body rest) s (pending ++ [.again n body rest]) q u

theorem run_block_done (host : Host α β σ) (b : β) (body rest : Program α β) (s : σ) :
    (Program.block b body rest).run host s
      = andThen ((Program.block b body .done).run host s) (rest.run host) := by
  have idle : ∀ x : σ × Outcome, andThen x (Program.done.run host) = x := by
    intro x
    obtain ⟨t, o⟩ := x
    cases o <;> rfl
  rw [Program.run, Program.run]
  cases host.enter b s with
  | skipped t o => exact congrArg (andThen · _) (idle _).symm
  | opened t => exact congrArg (andThen · _) (idle _).symm

/-- **From any point of a run on,** the part at hand is run, and then what is pending. -/
theorem run_reaches {host : Host α β σ} {p q : Program α β} {s t : σ}
    {pending : List (Pending α β)} (h : Reaches host p s pending q t) :
    p.run host s = pending.foldl host.resume (q.run host t) := by
  induction h with
  | here => rfl
  | act ha _ ih => rw [Program.run, ha]; exact ih
  | block hb _ ih => rw [run_block_done, hb]; exact ih
  | inBlock hb _ ih => rw [Program.run, hb, List.foldl_append, ← ih]; rfl
  | loop _ ih => exact ih
  | round hr _ ih => rw [Program.run, repeatWhileReturned, hr]; exact ih
  | inRound _ ih => rw [Program.run, repeatWhileReturned, List.foldl_append, ← ih]; rfl

/-- **What acts and blocks keep holds at every point of a run.** -/
theorem reaches_keeps {host : Host α β σ} {P : σ → Prop} {p q : Program α β} {s t : σ}
    {pending : List (Pending α β)} (way : Reaches host p s pending q t)
    (act : ∀ a ∈ p.acts, ∀ s, P s → P (host.act a s).1)
    (enter : ∀ b ∈ p.blocks, ∀ s, P s → P (host.enter b s).state)
    (leave : ∀ b ∈ p.blocks, ∀ o s, P s → P (host.leave b o s).1) (hs : P s) : P t := by
  induction way with
  | here => exact hs
  | @act a rest q s t u pending ha _ ih =>
      have next := act a List.mem_cons_self s hs
      rw [ha] at next
      exact ih (fun a' ha' => act a' (List.mem_cons_of_mem a ha')) enter leave next
  | @block b body rest q s t u pending hb _ ih =>
      have acts : ∀ a ∈ (Program.block b body .done : Program α β).acts, a ∈ body.acts :=
        fun a ha => (List.append_nil body.acts) ▸ ha
      have blocks : ∀ b' ∈ (Program.block b body .done : Program α β).blocks,
          b' ∈ (Program.block b body rest).blocks := by
        intro b' hb'
        rcases List.mem_cons.mp hb' with rfl | hb'
        · exact List.mem_cons_self
        · rw [Program.blocks, List.append_nil] at hb'
          exact List.mem_cons_of_mem b (List.mem_append_left _ hb')
      have next := run_keeps (Program.block b body .done)
        (fun a ha => act a (List.mem_append_left _ (acts a ha)))
        (fun b' hb' => enter b' (blocks b' hb')) (fun b' hb' => leave b' (blocks b' hb')) s hs
      rw [hb] at next
      exact ih (fun a ha => act a (List.mem_append_right _ ha))
        (fun b' hb' => enter b' (List.mem_cons_of_mem b (List.mem_append_right _ hb')))
        (fun b' hb' => leave b' (List.mem_cons_of_mem b (List.mem_append_right _ hb'))) next
  | @inBlock b body rest q s t u pending hb _ ih =>
      have next := enter b List.mem_cons_self s hs
      rw [hb] at next
      exact ih (fun a ha => act a (List.mem_append_left _ ha))
        (fun b' hb' => enter b' (List.mem_cons_of_mem b (List.mem_append_left _ hb')))
        (fun b' hb' => leave b' (List.mem_cons_of_mem b (List.mem_append_left _ hb'))) next
  | loop _ ih =>
      exact ih (fun a ha => act a (List.mem_append_right _ ha))
        (fun b hb => enter b (List.mem_append_right _ hb))
        (fun b hb => leave b (List.mem_append_right _ hb)) hs
  | @round n body rest q s t u pending hr _ ih =>
      have next := run_keeps body (fun a ha => act a (List.mem_append_left _ ha))
        (fun b hb => enter b (List.mem_append_left _ hb))
        (fun b hb => leave b (List.mem_append_left _ hb)) s hs
      rw [hr] at next
      exact ih act enter leave next
  | inRound _ ih =>
      exact ih (fun a ha => act a (List.mem_append_left _ ha))
        (fun b hb => enter b (List.mem_append_left _ hb))
        (fun b hb => leave b (List.mem_append_left _ hb)) hs

/-! ## Leaving one guard -/

/-- Whether a block whose body has ended so leaves the guard that it has, if it has one. -/
def Block.leaves : Block φ → Outcome → Bool
  | .enter _ _ forget, o => !(forget && o = .returned)
  | .enterHidden _ _, _ => true
  | .attempt, _ => true

/-- What is logged when a guard that remembers the depth `entry` is left at depth `depth`. -/
def exitEvents (depth entry : Nat) : List Event :=
  if depth = entry + 1 then [.popped entry]
  else [.unbalanced depth (entry + 1), .truncated (min depth entry)]

variable [Sentinel φ] [DecidableEq φ]

/-- A balanced exit always finds a frame to pop, so it logs a pop and nothing else. -/
theorem Machine.events_release (s : Stack φ) (guard : Guard φ) :
    (Machine.release s guard).2.events = exitEvents s.depth guard.entryDepth := by
  by_cases balanced : s.depth = guard.entryDepth + 1
  · obtain ⟨frame, rest, hp, hd⟩ := Stack.pop?_of_depth balanced
    rw [Machine.release_balanced balanced hp, exitEvents, if_pos balanced, hd]
  · rw [Machine.release_unbalanced balanced, exitEvents, if_neg balanced, Stack.depth_truncate]

theorem Machine.frames_release (s : Stack φ) (guard : Guard φ) :
    (Machine.release s guard).1.frames.toList
      = s.frames.toList.take (min s.depth guard.entryDepth) := by
  have h := congrArg List.reverse (Machine.toList_release s guard)
  have hsize : s.frames.toList.length = s.depth := Array.length_toList
  unfold Stack.toList at h
  rw [List.reverse_reverse, List.reverse_drop, List.reverse_reverse, List.length_reverse,
    hsize] at h
  rw [h, show s.depth - (s.depth - guard.entryDepth) = min s.depth guard.entryDepth by omega]

/-! ## Leaving many -/

/-- What is to be seen of leaving a guard. -/
structure Exit (φ : Type) where
  /-- The guard that is left. -/
  guard : Option (Guard φ)
  events : List Event
  /-- The frames afterwards, bottom-first. -/
  frames : List φ
  limit : Limit

omit [Sentinel φ] [DecidableEq φ] in
/-- A move, seen as the exit from a guard. -/
def Record.exit (record : Record φ) : Exit φ :=
  { guard := record.before.guards.head?
    events := record.result.effect.events
    frames := record.result.machine.stack.frames.toList
    limit := record.result.machine.stack.limit }

/-- The exits from `guards`, innermost first, that a stack is to see whose frames were `left`
before the first of them and of which the lowest `depth` are left by now. -/
def unwinding (left : List φ) (limit : Limit) (depth : Nat) : List (Guard φ) → List (Exit φ)
  | [] => []
  | guard :: outer =>
      { guard := some guard
        events := exitEvents depth guard.entryDepth
        frames := left.take (min depth guard.entryDepth)
        limit } :: unwinding left limit (min depth guard.entryDepth) outer

/-- Of the frames `left`, the lowest `depth` are on the stack, and nothing else is. -/
structure Stack.IsLowest (s : Stack φ) (left : List φ) (limit : Limit) (depth : Nat) : Prop where
  enough : depth ≤ left.length
  frames : s.frames.toList = left.take depth
  limit : s.limit = limit

omit [Sentinel φ] [DecidableEq φ] in
theorem Stack.IsLowest.depth_eq {s : Stack φ} {left : List φ} {limit : Limit} {depth : Nat}
    (h : s.IsLowest left limit depth) : s.depth = depth := by
  have hlen := congrArg List.length h.frames
  rw [List.length_take, Nat.min_eq_left h.enough] at hlen
  exact hlen

theorem Stack.IsLowest.release {s : Stack φ} {left : List φ} {limit : Limit} {depth : Nat}
    (h : s.IsLowest left limit depth) (guard : Guard φ) :
    (Machine.release s guard).1.IsLowest left limit (min depth guard.entryDepth) where
  enough := Nat.le_trans (Nat.min_le_left _ _) h.enough
  frames := by
    rw [Machine.frames_release, h.depth_eq, h.frames, List.take_take]
    congr 1
    omega
  limit := (Machine.limit_release s guard).trans h.limit

/-- **The exit from one guard** is what `unwinding` says it is. -/
theorem Machine.leave_exit {m : Machine φ} {guard : Guard φ} {outer : List (Guard φ)}
    {left : List φ} {limit : Limit} {depth : Nat} (hg : m.guards = guard :: outer)
    (h : m.stack.IsLowest left limit depth) :
    m.leave.machine.guards = outer ∧
      m.leave.machine.stack.IsLowest left limit (min depth guard.entryDepth) ∧
      (m.record .leave).exit =
        { guard := some guard
          events := exitEvents depth guard.entryDepth
          frames := left.take (min depth guard.entryDepth)
          limit } := by
  obtain ⟨stack, guards, forgotten⟩ := m
  cases hg
  have released := h.release guard
  have logged := Machine.events_release stack guard
  rw [h.depth_eq] at logged
  refine ⟨rfl, released, ?_⟩
  unfold Record.exit
  congr 1
  · exact released.frames
  · exact released.limit

namespace Pending

/-- Whether a guard is among what is pending. -/
def guarded : Pending (Act φ) (Block φ) → Bool
  | .close .attempt _ | .again .. => false
  | .close _ _ => true

/-- With which outcome things go on outside. -/
def passes : Pending (Act φ) (Block φ) → Outcome → Outcome
  | .close .attempt _, _ => .returned
  | _, o => o

/-- That nothing is left to be run here, but for leaving a guard: the block or loop is at its
end, or the outcome skips what is left of it. -/
def Idle : Pending (Act φ) (Block φ) → Outcome → Prop
  | .close b rest, o =>
      b.leaves o = true ∧ ((Pending.close b rest).passes o = .returned → rest = .done)
  | .again n _ rest, o => o = .returned → n = 0 ∧ rest = .done

/-- That nothing is left to be run anywhere on the way out. -/
def AllIdle : List (Pending (Act φ) (Block φ)) → Outcome → Prop
  | [], _ => True
  | first :: outer, o => first.Idle o ∧ AllIdle outer (first.passes o)

end Pending

/-- Where nothing is left to be run, going on changes nothing. -/
theorem andThen_idle {x : σ × Outcome} {k : σ → σ × Outcome}
    (idle : x.2 = .returned → ∀ s, k s = (s, .returned)) : andThen x k = x := by
  obtain ⟨s, o⟩ := x
  cases o with
  | returned => exact idle rfl s
  | failed cause => rfl
  | panicked message => rfl
  | crashed => rfl

theorem Pending.Idle.resume {first : Pending (Act φ) (Block φ)} {o : Outcome}
    (h : first.Idle o) (r : Recording φ) :
    Recording.host.resume (r, o) first
      = (if first.guarded then r.move .leave else r, first.passes o) := by
  cases first with
  | close b rest =>
      obtain ⟨leaves, idle⟩ := h
      have closed : Recording.host.leave b o r
          = (if (Pending.close b rest).guarded then r.move .leave else r,
            (Pending.close b rest).passes o) := by
        cases b with
        | enter frame insist forget =>
            have kept : (forget && o = .returned) = false := by
              rw [← Bool.not_eq_true']
              exact leaves
            show (r.move (if (forget && o = .returned) = true then .forget else .leave), o) = _
            rw [kept]
            rfl
        | enterHidden frame insist => rfl
        | attempt => rfl
      show andThen (Recording.host.leave b o r) _ = _
      rw [closed]
      exact andThen_idle (fun ho s => by rw [idle ho]; rfl)
  | again n body rest =>
      have rounds : andThen (r, o) (repeatWhileReturned (body.run Recording.host) n) = (r, o) :=
        andThen_idle (fun ho s => by rw [(h ho).1]; rfl)
      show andThen (andThen (r, o) _) _ = (r, o)
      rw [rounds]
      exact andThen_idle (fun ho s => by rw [(h ho).2]; rfl)

/-- **The way out** is the unwinding of the guards that are pending, and nothing besides. -/
theorem pending_unwinds {left : List φ} {limit : Limit} {base : List (Guard φ)}
    (pending : List (Pending (Act φ) (Block φ))) {o : Outcome}
    (idle : Pending.AllIdle pending o) {depth : Nat} {r : Recording φ}
    {guards : List (Guard φ)} (hg : r.machine.guards = guards ++ base)
    (hlen : guards.length = (pending.filter Pending.guarded).length)
    (h : r.machine.stack.IsLowest left limit depth) :
    ∃ (r' : Recording φ) (exits : List (Record φ)),
      pending.foldl Recording.host.resume (r, o)
        = (r', pending.foldl (fun o first => first.passes o) o)
      ∧ r'.history = exits.reverse ++ r.history
      ∧ (∀ exit ∈ exits, exit = exit.before.record .leave)
      ∧ exits.map Record.exit = unwinding left limit depth guards
      ∧ r'.machine.guards = base
      ∧ r'.machine.stack.IsLowest left limit
          ((guards.map Guard.entryDepth).foldl min depth) := by
  -- from the innermost outwards: each guard is left at the depth where the last one ended
  induction pending generalizing o depth r guards with
  | nil =>
      rw [List.length_eq_zero_iff.mp hlen] at hg ⊢
      exact ⟨r, [], rfl, rfl, fun exit he => absurd he List.not_mem_nil, rfl, hg, h⟩
  | cons first outer ih =>
      obtain ⟨here, outside⟩ := idle
      rw [List.foldl_cons, List.foldl_cons, here.resume]
      by_cases guarded : first.guarded = true
      · rw [List.filter_cons_of_pos guarded] at hlen
        obtain ⟨guard, guards, rfl⟩ := List.exists_cons_of_length_eq_add_one hlen
        obtain ⟨hguards, hstack, hexit⟩ := Machine.leave_exit hg h
        obtain ⟨r', exits, hout, hhistory, hleft, hexits, hbase, hlowest⟩ :=
          ih outside (r := r.move .leave) hguards (Nat.succ.inj hlen) hstack
        rw [if_pos guarded]
        refine ⟨r', r.machine.record .leave :: exits, hout, ?_, ?_, ?_, hbase, hlowest⟩
        · rw [hhistory, List.reverse_cons, List.append_assoc]
          rfl
        · intro exit he
          rcases List.mem_cons.mp he with rfl | he
          · rfl
          · exact hleft exit he
        · rw [List.map_cons, hexits, hexit]
          rfl
      · rw [List.filter_cons_of_neg guarded] at hlen
        rw [if_neg guarded]
        exact ih outside hg hlen h

/-! ## The way in -/

/-- A block that is opened puts one guard on top of those that are there, or none if it is
an attempt. -/
theorem host_opened_guards {b : Block φ} {r t : Recording φ}
    (h : Recording.host.enter b r = .opened t) (rest : Program (Act φ) (Block φ)) :
    ∃ new, new.length = ([Pending.close b rest].filter Pending.guarded).length
      ∧ t.machine.guards = new ++ r.machine.guards := by
  cases b with
  | enter frame insist forget =>
      obtain ⟨guard, hg⟩ := Recording.guards_opened h
      exact ⟨[guard], rfl, hg⟩
  | enterHidden frame insist =>
      obtain ⟨guard, hg⟩ := Recording.guards_opened h
      exact ⟨[guard], rfl, hg⟩
  | attempt =>
      cases h
      exact ⟨[], rfl, rfl⟩

/-- A program ends with the guards it began with, for all its blocks are closed by then. -/
theorem run_guards (p : Program (Act φ) (Block φ)) (r : Recording φ) :
    (p.run Recording.host r).1.machine.guards = r.machine.guards := by
  refine run_restores (h := Recording.host) (f := fun r => r.machine.guards) ?_ ?_ ?_ p r
  · intro a r
    cases a <;> rfl
  · intro b s t o he
    cases b with
    | enter frame insist forget => exact Recording.guards_skipped he
    | enterHidden frame insist => exact Recording.guards_skipped he
    | attempt => cases he
  · intro b s t he o u hu
    -- the guard that the body found on top is the one that its block has left there
    cases b with
    | enter frame insist forget =>
        obtain ⟨guard, hg⟩ := Recording.guards_opened he
        rw [hg] at hu
        show (u.move (if (forget && o = .returned) = true then .forget else .leave)).machine.guards
          = s.machine.guards
        split
        · exact u.machine.guards_forget.trans (congrArg List.tail hu)
        · exact u.machine.guards_leave.trans (congrArg List.tail hu)
    | enterHidden frame insist =>
        obtain ⟨guard, hg⟩ := Recording.guards_opened he
        rw [hg] at hu
        exact u.machine.guards_leave.trans (congrArg List.tail hu)
    | attempt =>
        cases he
        exact hu

/-- Every guard that is pending at a point of a run is on top of those that were there. -/
theorem reaches_guards {p q : Program (Act φ) (Block φ)} {s t : Recording φ}
    {pending : List (Pending (Act φ) (Block φ))} (h : Reaches Recording.host p s pending q t) :
    ∃ guards, guards.length = (pending.filter Pending.guarded).length
      ∧ t.machine.guards = guards ++ s.machine.guards := by
  induction h with
  | here => exact ⟨[], rfl, rfl⟩
  -- what has been passed over has closed its blocks, so it left the guards as they were
  | @act a rest q s t u pending ha _ ih =>
      have same := run_guards (.act a .done) s
      rw [Program.run, ha] at same
      rw [← same]
      exact ih
  | @block b body rest q s t u pending hb _ ih =>
      have same := run_guards (.block b body .done) s
      rw [hb] at same
      rw [← same]
      exact ih
  | @inBlock b body rest q s t u pending hb _ ih =>
      obtain ⟨guards, hlen, hg⟩ := ih
      obtain ⟨new, hnew, ht⟩ := host_opened_guards hb rest
      refine ⟨guards ++ new, ?_, ?_⟩
      · rw [List.length_append, List.filter_append, List.length_append, hlen, hnew]
      · rw [hg, ht, List.append_assoc]
  | loop _ ih => exact ih
  | @round n body rest q s t u pending hr _ ih =>
      have same := run_guards body s
      rw [hr] at same
      rw [← same]
      exact ih
  | @inRound n body rest q s u pending _ ih =>
      obtain ⟨guards, hlen, hg⟩ := ih
      refine ⟨guards, ?_, hg⟩
      rw [List.filter_append, List.length_append, hlen]
      rfl

/-- **Unwinding.** A run comes to some part of its program, however deep inside, and that part
ends in some way and leaves some stack. If nothing is pending then but guards to be left,
these are left one by one, the innermost first and each exactly once, and nothing else
happens. Every exit is seen as `unwinding` says; none makes the stack deeper, or leaves it
deeper than its guard remembers, and it restores that depth exactly if it found no fewer
frames. In the end the lowest frames of those left are there, as many as the least of their
number and the remembered depths. -/
theorem guards_unwind (start r : Recording φ) (p body : Program (Act φ) (Block φ))
    (pending : List (Pending (Act φ) (Block φ)))
    (way : Reaches Recording.host p start pending body r)
    (idle : Pending.AllIdle pending (body.run Recording.host r).2) :
    let ended := body.run Recording.host r
    let left := ended.1.machine.stack
    let whole := p.run Recording.host start
    ∃ (guards : List (Guard φ)) (exits : List (Record φ)),
      guards.length = (pending.filter Pending.guarded).length ∧
      ended.1.machine.guards = guards ++ start.machine.guards ∧
      whole.2 = pending.foldl (fun o first => first.passes o) ended.2 ∧
      whole.1.history = exits.reverse ++ ended.1.history ∧
      (∀ exit ∈ exits, exit.move = .leave) ∧
      exits.map Record.exit = unwinding left.frames.toList left.limit left.depth guards ∧
      (∀ exit ∈ exits, ∀ guard ∈ exit.before.guards.head?,
        let depth := exit.result.machine.stack.depth
        depth ≤ exit.before.stack.depth ∧ depth ≤ guard.entryDepth ∧
          (depth = guard.entryDepth ↔ guard.entryDepth ≤ exit.before.stack.depth)) ∧
      whole.1.machine.guards = start.machine.guards ∧
      whole.1.machine.stack.limit = left.limit ∧
      whole.1.machine.stack.frames.toList =
        left.frames.toList.take ((guards.map Guard.entryDepth).foldl min left.depth) := by
  intro ended left whole
  obtain ⟨guards, hlen, hguards⟩ := reaches_guards way
  have hended : ended.1.machine.guards = guards ++ start.machine.guards :=
    (run_guards body r).trans hguards
  have full : left.IsLowest left.frames.toList left.limit left.depth :=
    ⟨Nat.le_refl _, List.take_length.symm, rfl⟩
  obtain ⟨r', exits, hout, hhistory, hleft, hexits, hbase, hlowest⟩ :=
    pending_unwinds pending idle hended hlen full
  have hwhole : whole = (r', pending.foldl (fun o first => first.passes o) ended.2) :=
    (run_reaches way).trans hout
  refine ⟨guards, exits, hlen, hended, ?_⟩
  rw [hwhole]
  refine ⟨rfl, hhistory, ?_, hexits, ?_, hbase, hlowest.limit, hlowest.frames⟩
  · intro exit he
    rw [hleft exit he]
    rfl
  · intro exit he guard hg depth
    -- pop or cut, the depth is the lesser of the depth found and the depth remembered
    have hdepth : depth = min exit.before.stack.depth guard.entryDepth := by
      obtain ⟨outer, hg⟩ := List.head?_eq_some_iff.mp hg
      have left_by : depth = exit.before.leave.machine.stack.depth :=
        congrArg (fun record => record.result.machine.stack.depth) (hleft exit he)
      rw [left_by, Machine.stack_leave hg, Machine.depth_release]
    omega

/-- A body that leaves two frames behind and fails. -/
def leaky : Program (Act Frame) (Block Frame) :=
  .act (.call (.push (.numbered 4))) <|
  .act (.call (.push (.numbered 5))) <|
  .act (.fail "lost") .done

/-- The same inside a body that has popped below its own guard. -/
def sunken : Program (Act Frame) (Block Frame) :=
  .block (.enter (.numbered 2) true false)
    (.act (.call .pop) <|
      .act (.call .pop) <|
      .block (.enterHidden (.numbered 3) true) leaky .done)
    .done

theorem guards_unwind_sunken :
    let start : Recording Frame :=
      { machine := { stack := .ofList {} [.numbered 1, .numbered 0] } }
    let r := (((start.move (.enter .reachable (.numbered 2))).move (.call .pop)).move
      (.call .pop)).move (.enter .hidden (.numbered 3))
    let pending := [.close (.enterHidden (.numbered 3) true) .done,
      .close (.enter (.numbered 2) true false) .done]
    Reaches Recording.host sunken start pending leaky r ∧
      Pending.AllIdle pending (leaky.run Recording.host r).2 ∧
      ∃ exits : List (Record Frame),
        (sunken.run Recording.host start).1.history
          = exits.reverse ++ (leaky.run Recording.host r).1.history ∧
        exits.map (fun exit => exit.result.effect.events)
          = [[.unbalanced 4 2, .truncated 1], [.unbalanced 1 3, .truncated 1]] := by
  intro start r pending
  have way : Reaches Recording.host sunken start pending leaky r :=
    .inBlock rfl (.act rfl (.act rfl (.inBlock rfl .here)))
  have idle : Pending.AllIdle pending (leaky.run Recording.host r).2 :=
    ⟨⟨rfl, fun _ => rfl⟩, ⟨rfl, fun _ => rfl⟩, trivial⟩
  obtain ⟨guards, exits, -, live, -, hhistory, -, hexits, -⟩ :=
    guards_unwind start r sunken leaky pending way idle
  have depth : (leaky.run Recording.host r).1.machine.stack.depth = 4 := by decide
  have open_guards : (leaky.run Recording.host r).1.machine.guards
      = [⟨.numbered 3, 1, .hidden⟩, ⟨.numbered 2, 2, .reachable⟩] := by decide
  rw [open_guards] at live
  obtain rfl := live.trans (List.append_nil guards)
  rw [depth] at hexits
  have events := congrArg (List.map Exit.events) hexits
  rw [List.map_map] at events
  exact ⟨way, idle, exits, hhistory, events⟩

end CallPath
