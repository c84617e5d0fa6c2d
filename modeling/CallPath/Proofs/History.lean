import CallPath.Recording
import CallPath.Proofs.Simulation

/-!
# What happened so far

A recording lists its moves latest first, so every point of a run is a suffix of its
history: the moves made by then. What is said here about any history that can happen holds
of every program at every point, inside bodies and after caught panics alike, because the
run of a program is nothing but a history (`run_happened`).

A history knows how its moves nest. Every live guard was left behind by one entry, and
`openings` remembers, for each of them, what had happened when that entry was called. The
machine that the entry met, the depth at which it was entered and the moves made in its
body are all to be read off from there.
-/

namespace CallPath

variable {φ : Type}

/-- The machine after a history that began at `start`. -/
def now (start : Machine φ) : List (Record φ) → Machine φ
  | [] => start
  | record :: _ => record.result.machine

/-- What the entries that left the live guards behind had seen happen, innermost first. -/
def openings : List (Record φ) → List (List (Record φ))
  | [] => []
  | record :: past =>
      match record.move, record.result.answer.fault? with
      | .enter _ _, none => past :: openings past
      | .enter _ _, some _ => openings past
      | .leave, _ => (openings past).tail
      | .forget, _ => (openings past).tail
      | .call _, _ => openings past

/-- What a history passes on to the moves before its latest, it passes on to every earlier
point. -/
theorem suffix_closed {P : List (Record φ) → Prop}
    (before : ∀ record past, P (record :: past) → P past) {past earlier : List (Record φ)}
    (h : P past) (hs : earlier <:+ past) : P earlier := by
  induction past with
  | nil =>
      rw [List.suffix_nil.mp hs]
      exact h
  | cons record past ih =>
      rcases List.suffix_cons_iff.mp hs with rfl | hs
      · exact h
      · exact ih (before record past h) hs

/-! ## The moves of a program -/

/-- The moves of an act. -/
def Act.moves : Act φ → List (Move φ)
  | .call c => [.call c]
  | .fail _ | .panic _ => []

/-- The moves that open and close a block. -/
def Block.moves : Block φ → List (Move φ)
  | .enter frame _ forget =>
      [.enter .reachable frame, .leave] ++ (if forget then [.forget] else [])
  | .enterHidden frame _ => [.enter .hidden frame, .leave]
  | .attempt => []

/-- All moves that a program might make. -/
def Program.moves (p : Program (Act φ) (Block φ)) : List (Move φ) :=
  p.acts.flatMap Act.moves ++ p.blocks.flatMap Block.moves

theorem mem_moves_of_act {p : Program (Act φ) (Block φ)} {a : Act φ} {mv : Move φ}
    (ha : a ∈ p.acts) (h : mv ∈ a.moves) : mv ∈ p.moves :=
  List.mem_append_left _ (List.mem_flatMap.mpr ⟨a, ha, h⟩)

theorem mem_moves_of_block {p : Program (Act φ) (Block φ)} {b : Block φ} {mv : Move φ}
    (hb : b ∈ p.blocks) (h : mv ∈ b.moves) : mv ∈ p.moves :=
  List.mem_append_right _ (List.mem_flatMap.mpr ⟨b, hb, h⟩)

variable [Sentinel φ] [DecidableEq φ]

/-! ## Histories that can happen -/

/-- The record of a move. -/
def Machine.record (m : Machine φ) (mv : Move φ) : Record φ :=
  { before := m, move := mv, result := m.step mv }

/-- The histories that can happen from a machine on: any moves, one after another. -/
inductive Happened (start : Machine φ) : List (Record φ) → Prop where
  | nil : Happened start []
  | move {past : List (Record φ)} (mv : Move φ) :
      Happened start past → Happened start ((now start past).record mv :: past)

theorem Happened.of_suffix {start : Machine φ} {past earlier : List (Record φ)}
    (h : Happened start past) (hs : earlier <:+ past) : Happened start earlier := by
  refine suffix_closed (fun record past later => ?_) h hs
  cases later with
  | move mv before => exact before

theorem Happened.head_eq {start : Machine φ} {record : Record φ} {past : List (Record φ)}
    (h : Happened start (record :: past)) : record = (now start past).record record.move := by
  cases h with
  | move mv _ => rfl

/-- Whatever is on record was met by the machine that the earlier moves had come to. -/
theorem Happened.of_mem {start : Machine φ} {record : Record φ} {past : List (Record φ)}
    (h : Happened start past) (hr : record ∈ past) :
    ∃ earlier, record :: earlier <:+ past ∧ record = (now start earlier).record record.move := by
  obtain ⟨later, earlier, split⟩ := List.append_of_mem hr
  have hs : record :: earlier <:+ past := ⟨later, split.symm⟩
  exact ⟨earlier, hs, (h.of_suffix hs).head_eq⟩

/-- A move on record was made by the machine that the moves before it had come to. -/
theorem Happened.record_at {start : Machine φ} {record : Record φ} {mv : Move φ}
    {past earlier : List (Record φ)} (h : Happened start past) (hs : record :: earlier <:+ past)
    (made : record.move = mv) : earlier <:+ past ∧ record = (now start earlier).record mv := by
  refine ⟨(List.suffix_cons record earlier).trans hs, ?_⟩
  rw [← made]
  exact (h.of_suffix hs).head_eq

/-- The latest moves are a history of their own, from where the earlier ones ended. -/
theorem Happened.since {start : Machine φ} {inside earlier : List (Record φ)}
    (h : Happened start (inside ++ earlier)) : Happened (now start earlier) inside
      ∧ now start (inside ++ earlier) = now (now start earlier) inside := by
  induction inside with
  | nil => exact ⟨.nil, rfl⟩
  | cons record inside ih =>
      rw [List.cons_append] at h ⊢
      cases h with
      | move mv h =>
          obtain ⟨before, same⟩ := ih h
          rw [same]
          exact ⟨.move mv before, rfl⟩

/-- A recording of what happened from `start` on, all of it moves out of `moves`. -/
structure Recording.Keeps (start : Machine φ) (moves : List (Move φ)) (r : Recording φ) :
    Prop where
  happened : Happened start r.history
  now_eq : now start r.history = r.machine
  made : ∀ record ∈ r.history, record.move ∈ moves

theorem Recording.Keeps.move {start : Machine φ} {moves : List (Move φ)} {r : Recording φ}
    (h : r.Keeps start moves) {mv : Move φ} (hmv : mv ∈ moves) : (r.move mv).Keeps start moves where
  happened := by
    show Happened start (r.machine.record mv :: r.history)
    rw [← h.now_eq]
    exact .move mv h.happened
  now_eq := rfl
  made := by
    intro record hrec
    rcases List.mem_cons.mp hrec with rfl | hrec
    · exact hmv
    · exact h.made record hrec

theorem Recording.state_enter (r : Recording φ) (manner : Manner) (frame : φ) (insist : Bool) :
    (r.enter manner frame insist).state = r.move (.enter manner frame) := by
  unfold Recording.enter
  dsimp only
  split <;> rfl

section

variable {start : Machine φ} {p : Program (Act φ) (Block φ)} {r : Recording φ}

theorem Recording.Keeps.act {a : Act φ} (ha : a ∈ p.acts) (h : r.Keeps start p.moves) :
    (Recording.host.act a r).1.Keeps start p.moves := by
  cases a with
  | call c => exact h.move (mem_moves_of_act ha List.mem_cons_self)
  | fail message => exact h
  | panic message => exact h

theorem Recording.Keeps.enter {b : Block φ} (hb : b ∈ p.blocks) (h : r.Keeps start p.moves) :
    (Recording.host.enter b r).state.Keeps start p.moves := by
  cases b with
  | enter frame insist forget =>
      have entered := h.move (mem_moves_of_block hb List.mem_cons_self)
      rwa [← r.state_enter .reachable frame insist] at entered
  | enterHidden frame insist =>
      have entered := h.move (mem_moves_of_block hb List.mem_cons_self)
      rwa [← r.state_enter .hidden frame insist] at entered
  | attempt => exact h

theorem Recording.Keeps.leave {b : Block φ} (hb : b ∈ p.blocks) (o : Outcome)
    (h : r.Keeps start p.moves) : (Recording.host.leave b o r).1.Keeps start p.moves := by
  cases b with
  | enter frame insist forget =>
      refine h.move (mem_moves_of_block hb ?_)
      cases forget with
      | false => simp [Block.moves]
      | true => by_cases ho : o = .returned <;> simp [Block.moves, ho]
  | enterHidden frame insist => exact h.move (mem_moves_of_block hb (by simp [Block.moves]))
  | attempt => exact h

end

theorem Recording.keeps_nothing (m : Machine φ) (moves : List (Move φ)) :
    Recording.Keeps m moves { machine := m } :=
  ⟨.nil, rfl, fun _ h => absurd h List.not_mem_nil⟩

/-- **A run is a history,** and the machine it ends with is what that history comes to. It
makes no move that its program does not mention. -/
theorem run_keeps_history (m : Machine φ) (p : Program (Act φ) (Block φ)) :
    (m.run p).1.Keeps m p.moves :=
  run_keeps p (fun _ ha _ h => h.act ha) (fun _ hb _ h => h.enter hb)
    (fun _ hb o _ h => h.leave hb o) _ (Recording.keeps_nothing m p.moves)

/-! ## How moves nest -/

/-- An entry either is refused and changes nothing, or puts its frame on the stack and
leaves a guard that remembers how deep the stack was. -/
theorem Machine.enter_cases (m : Machine φ) (manner : Manner) (frame : φ) :
    ((∃ fault, (m.enter manner frame).answer.fault? = some fault)
        ∧ (m.enter manner frame).machine = m) ∨
      ((m.enter manner frame).answer.fault? = none ∧ (m.enter manner frame).machine =
        { m with
          stack := m.stack.push frame
          guards := { frame, entryDepth := m.stack.depth, manner } :: m.guards }) := by
  cases hr : m.stack.limit.refusal? m.stack.depth with
  | some max =>
      rw [enter_refused hr]
      exact .inl ⟨⟨.recursionLimit max, rfl⟩, rfl⟩
  | none =>
      rw [enter_accepted hr]
      exact .inr ⟨rfl, rfl⟩

/-- A body that is opened runs under one more guard. -/
theorem Recording.guards_opened {r t : Recording φ} {manner : Manner} {frame : φ} {insist : Bool}
    (h : r.enter manner frame insist = .opened t) :
    ∃ guard, t.machine.guards = guard :: r.machine.guards := by
  unfold Recording.enter at h
  dsimp only at h
  rcases r.machine.enter_cases manner frame with ⟨⟨fault, hf⟩, -⟩ | ⟨hf, hm⟩
  · rw [hf] at h
    cases h
  · rw [hf] at h
    cases h
    exact ⟨_, congrArg Machine.guards hm⟩

/-- A body that is skipped leaves the guards as they were. -/
theorem Recording.guards_skipped {r t : Recording φ} {manner : Manner} {frame : φ} {insist : Bool}
    {o : Outcome} (h : r.enter manner frame insist = .skipped t o) :
    t.machine.guards = r.machine.guards := by
  unfold Recording.enter at h
  dsimp only at h
  rcases r.machine.enter_cases manner frame with ⟨⟨fault, hf⟩, hm⟩ | ⟨hf, -⟩
  · rw [hf] at h
    cases h
    exact congrArg Machine.guards hm
  · rw [hf] at h
    cases h

theorem openings_refused {m : Machine φ} {manner : Manner} {frame : φ} {fault : Fault}
    (h : (m.enter manner frame).answer.fault? = some fault) (past : List (Record φ)) :
    openings (m.record (.enter manner frame) :: past) = openings past := by
  simp only [openings, Machine.record, Machine.step, h]

theorem openings_entered {m : Machine φ} {manner : Manner} {frame : φ}
    (h : (m.enter manner frame).answer.fault? = none) (past : List (Record φ)) :
    openings (m.record (.enter manner frame) :: past) = past :: openings past := by
  simp only [openings, Machine.record, Machine.step, h]

/-- **Guards remember the depth at their openings.** -/
theorem Happened.entryDepths {start : Machine φ} (bare : start.guards = [])
    {past : List (Record φ)} (h : Happened start past) :
    (now start past).guards.map Guard.entryDepth
      = (openings past).map (fun opening => (now start opening).stack.depth) := by
  induction h with
  | nil => show start.guards.map _ = _; rw [bare]; rfl
  | @move past mv _ ih =>
      cases mv with
      | call c => exact ih
      | enter manner frame =>
          show ((now start past).enter manner frame).machine.guards.map _ = _
          rcases (now start past).enter_cases manner frame with ⟨⟨fault, hf⟩, hm⟩ | ⟨hf, hm⟩
          · rw [hm, openings_refused hf, ih]
          · rw [hm, openings_entered hf, List.map_cons, List.map_cons, ih]
      | leave =>
          show (now start past).leave.machine.guards.map _ = (openings past).tail.map _
          rw [Machine.guards_leave, List.map_tail, ih, List.map_tail]
      | forget =>
          show (now start past).forget.machine.guards.map _ = (openings past).tail.map _
          rw [Machine.guards_forget, List.map_tail, ih, List.map_tail]

/-- The innermost guard has the innermost opening. -/
theorem Happened.innermost {start : Machine φ} (bare : start.guards = [])
    {past : List (Record φ)} (h : Happened start past) {guard : Guard φ} {guards : List (Guard φ)}
    (hg : (now start past).guards = guard :: guards) :
    ∃ opening, (openings past).head? = some opening
      ∧ guard.entryDepth = (now start opening).stack.depth := by
  have depths := h.entryDepths bare
  rw [hg, List.map_cons] at depths
  obtain ⟨opening, older, ho, hd, -⟩ := List.map_eq_cons_iff.mp depths.symm
  exact ⟨opening, by rw [ho]; rfl, hd.symm⟩

/-- **Every opening is followed by its entry.** What came after that happened in the body
or later. -/
theorem Happened.entry_of_opening {start : Machine φ} {past opening : List (Record φ)}
    (h : Happened start past) (ho : opening ∈ openings past) :
    ∃ inside manner frame, ((now start opening).enter manner frame).answer.fault? = none
      ∧ past = inside ++ (now start opening).record (.enter manner frame) :: opening := by
  induction h with
  | nil => exact absurd ho List.not_mem_nil
  | @move past mv _ ih =>
      -- an opening that is older than this move keeps its entry, with one more move after it
      have older : opening ∈ openings past →
          ∃ inside manner frame, ((now start opening).enter manner frame).answer.fault? = none
            ∧ (now start past).record mv :: past
              = inside ++ (now start opening).record (.enter manner frame) :: opening := by
        intro ho
        obtain ⟨inside, manner, frame, accepted, split⟩ := ih ho
        exact ⟨(now start past).record mv :: inside, manner, frame, accepted,
          congrArg (_ :: ·) split⟩
      cases mv with
      | call c => exact older ho
      | enter manner frame =>
          rcases (now start past).enter_cases manner frame with ⟨⟨fault, hf⟩, -⟩ | ⟨hf, -⟩
          · rw [openings_refused hf] at ho
            exact older ho
          · rw [openings_entered hf] at ho
            rcases List.mem_cons.mp ho with rfl | ho
            · exact ⟨[], manner, frame, hf, rfl⟩
            · exact older ho
      | leave => exact older (List.mem_of_mem_tail ho)
      | forget => exact older (List.mem_of_mem_tail ho)

section

variable {start : Machine φ} {past opening : List (Record φ)}

/-- The guards below one that is live are those that were live when it was entered. -/
theorem Happened.openings_nest (h : Happened start past) :
    ∀ opening outer, opening :: outer <:+ openings past → openings opening = outer := by
  induction h with
  | nil => exact fun opening outer hs => absurd (List.suffix_nil.mp hs) (List.cons_ne_nil _ _)
  | @move past mv _ ih =>
      intro opening outer hs
      cases mv with
      | call c => exact ih opening outer hs
      | enter manner frame =>
          rcases (now start past).enter_cases manner frame with ⟨⟨fault, hf⟩, -⟩ | ⟨hf, -⟩
          · rw [openings_refused hf] at hs
            exact ih opening outer hs
          · rw [openings_entered hf] at hs
            rcases List.suffix_cons_iff.mp hs with same | hs
            · obtain ⟨rfl, rfl⟩ := List.cons.inj same
              rfl
            · exact ih opening outer hs
      | leave => exact ih opening outer (hs.trans (List.tail_suffix _))
      | forget => exact ih opening outer (hs.trans (List.tail_suffix _))

theorem Happened.openings_of_innermost {outer : List (List (Record φ))} (h : Happened start past)
    (innermost : openings past = opening :: outer) : openings opening = outer :=
  h.openings_nest opening outer ⟨[], innermost.symm⟩

theorem Happened.suffix_of_opening (h : Happened start past) (ho : opening ∈ openings past) :
    opening <:+ past ∧ opening.length < past.length := by
  obtain ⟨inside, manner, frame, -, split⟩ := h.entry_of_opening ho
  rw [split]
  refine ⟨(List.suffix_cons _ opening).trans (List.suffix_append _ _), ?_⟩
  rw [List.length_append, List.length_cons]
  omega

/-- What had happened when a body was entered is a history, too. -/
theorem Happened.of_opening (h : Happened start past) (ho : opening ∈ openings past) :
    Happened start opening :=
  h.of_suffix (h.suffix_of_opening ho).1

/-- The bodies around the innermost one were opened before it. -/
theorem Happened.length_lt_innermost {around : List (Record φ)} {outer : List (List (Record φ))}
    (h : Happened start past) (innermost : openings past = opening :: outer)
    (ho : around ∈ outer) : around.length < opening.length := by
  have before := h.of_opening (innermost ▸ List.mem_cons_self)
  rw [← h.openings_of_innermost innermost] at ho
  exact (before.suffix_of_opening ho).2

/-- The innermost guard was left behind by the innermost opening. -/
theorem Happened.innermost_opening (bare : start.guards = []) (h : Happened start past)
    {guard : Guard φ} {guards : List (Guard φ)}
    (live : (now start past).guards = guard :: guards) :
    ∃ opening outer, openings past = opening :: outer ∧
      guard.entryDepth = (now start opening).stack.depth := by
  obtain ⟨opening, head, entry⟩ := h.innermost bare live
  obtain ⟨outer, innermost⟩ := List.head?_eq_some_iff.mp head
  exact ⟨opening, outer, innermost, entry⟩

end

end CallPath
