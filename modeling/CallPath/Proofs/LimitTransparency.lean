import CallPath.Proofs.EntryLimit
import CallPath.Proofs.Recasting

/-!
# The limit does not show until it is hit

Run a program under a limit and under a higher one, or under none. Until the lower limit
refuses an entry for the first time, nobody can tell the two runs apart, for the limit is asked
about nowhere else, and asked only whether the entry is to be refused. If no entry is refused
the two runs are the same to the end. After a refusal they have nothing to do with each other,
so what can be said of them ends there: it was the first entry that the run without a limit
made as deep as that, and both runs came to it in the same way (`limit_transparent`).
-/

namespace CallPath

variable {φ : Type}

/-! ## The same under another limit -/

/-- A limit is below another if it stops at no greater depth. Without a limit entry never
stops, so what is unbounded is above everything. -/
instance : LE Limit := ⟨fun low high => ∀ n ∈ high.max, ∃ m ∈ low.max, m ≤ n⟩

theorem Limit.refusal?_mono {low high : Limit} (le : low ≤ high) {depth : Nat}
    (free : low.refusal? depth = none) : high.refusal? depth = none := by
  refine refusal?_eq_none.mpr (fun n hn => ?_)
  obtain ⟨m, hm, hmn⟩ := le n hn
  have below : depth < m := refusal?_eq_none.mp free m hm
  omega

theorem Limit.refusal?_unbounded (depth : Nat) : Limit.unbounded.refusal? depth = none := rfl

theorem Limit.le_unbounded (limit : Limit) : limit ≤ unbounded := nofun

def Stack.under (limit : Limit) (s : Stack φ) : Stack φ := { s with limit }

def Machine.under (limit : Limit) (m : Machine φ) : Machine φ :=
  { m with stack := m.stack.under limit }

/-- A copy of a stack comes with the limit of the stack. No other answer depends on it but
that which tells it. -/
def Answer.under (limit : Limit) : Answer φ → Answer φ
  | stack s => stack (s.under limit)
  | a => a

def Reply.under (limit : Limit) (r : Reply φ) : Reply φ :=
  { answer := r.answer.under limit, stack := r.stack.under limit, effect := r.effect }

/-- The same machine under another limit. Events and faults are the same. -/
def Recast.under (limit : Limit) : Recast φ where
  machine := Machine.under limit
  answer := Answer.under limit
  event := id
  fault := id
  fault?_answer a := by cases a <;> rfl

/-- Whether a call is about anything but the limit. -/
def Call.ignoresLimit : Call φ → Bool
  | .limit | .replace _ => false
  | _ => true

def Move.ignoresLimit : Move φ → Bool
  | .call c => c.ignoresLimit
  | .enter _ _ | .leave | .forget => true

theorem Move.ne_replace {mv : Move φ} (blind : mv.ignoresLimit = true) (next : Stack φ) :
    mv ≠ .call (.replace next) := by
  rintro rfl
  cases blind

/-- Whether a move was refused because of the limit. -/
def Record.hitsLimit (record : Record φ) : Bool :=
  match record.result.answer.fault? with
  | some (.recursionLimit _) => true
  | _ => false

section

variable (limit : Limit) {s rest : Stack φ} {frame old : φ}

theorem Stack.pop?_under (popped : s.pop? = some (old, rest)) :
    (s.under limit).pop? = some (old, rest.under limit) :=
  pop?_eq_some.mpr ⟨(pop?_eq_some.mp popped).1, rfl⟩

theorem Stack.pop?_under_none (empty : s.pop? = none) : (s.under limit).pop? = none := by
  have frames := pop?_eq_none.mp empty
  exact pop?_eq_none.mpr frames

theorem Stack.set?_under {level : Nat} (written : s.set? level frame = some (old, rest)) :
    (s.under limit).set? level frame = some (old, rest.under limit) := by
  obtain ⟨found, frames, -⟩ := set?_eq_some.mp written
  exact set?_eq_some.mpr ⟨found, frames, rfl⟩

theorem Stack.set?_under_none {level : Nat} (outside : s.set? level frame = none) :
    (s.under limit).set? level frame = none := by
  have past := set?_eq_none.mp outside
  exact set?_eq_none.mpr past

theorem Recast.transition_under (t : Transition φ) : (Recast.under limit).transition t =
    { answer := t.answer.under limit, machine := t.machine.under limit, effect := t.effect } := by
  show Transition.mk _ _ (Effect.mk (t.effect.events.map id) _ _) = _
  rw [List.map_id]
  rfl

theorem Recast.outcome_under (o : Outcome) : (Recast.under limit : Recast φ).outcome o = o := by
  cases o with
  | failed cause => cases cause <;> rfl
  | returned => rfl
  | panicked message => rfl
  | crashed => rfl

theorem Recast.hitsLimit_under (record : Record φ) :
    ((Recast.under limit).record record).hitsLimit = record.hitsLimit := by
  unfold Record.hitsLimit
  rw [show ((Recast.under limit).record record).result.answer.fault? = _
    from (Recast.under limit).fault?_answer record.result.answer]
  show (match record.result.answer.fault?.map id with
    | some (.recursionLimit _) => true
    | _ => false) = _
  rw [Option.map_id_fun, id]

end

variable [Sentinel φ] [DecidableEq φ]

theorem Stack.call_under (limit : Limit) (s : Stack φ) {c : Call φ}
    (blind : c.ignoresLimit = true) : (s.under limit).call c = (s.call c).under limit := by
  cases c with
  | pop =>
      cases hs : s.pop? with
      | none => rw [call_pop_of_none hs, call_pop_of_none (pop?_under_none limit hs)]; rfl
      | some popped => rw [call_pop_of_some hs, call_pop_of_some (pop?_under limit hs)]; rfl
  | swap frame =>
      cases hs : s.swap? frame with
      | none =>
          have empty : (s.under limit).swap? frame = none := by
            rw [swap?_eq] at hs ⊢
            exact set?_under_none limit hs
          rw [call_swap_of_none hs, call_swap_of_none empty]
          rfl
      | some swapped =>
          have same : (s.under limit).swap? frame = some (swapped.1, swapped.2.under limit) := by
            rw [swap?_eq] at hs ⊢
            exact set?_under limit hs
          rw [call_swap_of_some hs, call_swap_of_some same]
          rfl
  | set level frame =>
      cases hs : s.set? level frame with
      | none => rw [call_set_of_none hs, call_set_of_none (set?_under_none limit hs)]; rfl
      | some written => rw [call_set_of_some hs, call_set_of_some (set?_under limit hs)]; rfl
  | limit => cases blind
  | replace next => cases blind
  | _ => rfl

theorem Machine.release_under (limit : Limit) (s : Stack φ) (guard : Guard φ) :
    release (s.under limit) guard = ((release s guard).1.under limit, (release s guard).2) := by
  by_cases balanced : s.depth = guard.entryDepth + 1
  · obtain ⟨frame, rest, hp, -⟩ := Stack.pop?_of_depth balanced
    rw [release_balanced (s := s.under limit) balanced (Stack.pop?_under limit hp),
      release_balanced balanced hp]
    rfl
  · rw [release_unbalanced (s := s.under limit) balanced, release_unbalanced balanced]
    rfl

namespace Recast

/-- **Only an entry notices the limit,** and only one that is refused. -/
theorem under_fits (limit : Limit) {m : Machine φ} {mv : Move φ} (blind : mv.ignoresLimit = true)
    (accepted : mv.isEntry = true → m.stack.limit.refusal? m.stack.depth = none ∧
      limit.refusal? m.stack.depth = none) : (Recast.under limit).Fits m mv := by
  cases mv with
  | call c =>
      have reply : ((Recast.under limit).machine m).stack.call c
          = (m.stack.call c).under limit := Stack.call_under limit m.stack blind
      rw [Fits, transition_under]
      show Transition.mk _ _ _ = Transition.mk _ _ _
      rw [reply]
      rfl
  | enter manner frame =>
      obtain ⟨here, there⟩ := accepted rfl
      show ((Recast.under limit).machine m).enter manner frame
        = (Recast.under limit).transition (m.enter manner frame)
      rw [Machine.enter_accepted here, Machine.enter_accepted there]
      rfl
  | leave =>
      rw [Fits, transition_under]
      show ((Recast.under limit).machine m).leave
        = Transition.mk (m.leave.answer.under limit) (m.leave.machine.under limit) m.leave.effect
      cases hg : m.guards with
      | nil =>
          have bare : ((Recast.under limit).machine m).guards = [] := hg
          rw [Machine.leave_of_nil bare, Machine.leave_of_nil hg]
          rfl
      | cons guard rest =>
          have live : ((Recast.under limit).machine m).guards = guard :: rest := hg
          have released : Machine.release ((Recast.under limit).machine m).stack guard = _ :=
            Machine.release_under limit m.stack guard
          rw [Machine.leave_of_cons live, Machine.leave_of_cons hg, released]
          rfl
  | forget =>
      obtain ⟨stack, guards, forgotten⟩ := m
      cases guards <;> rfl

end Recast

/-! ## The first entry to be refused -/

/-- Calls are refused for want of frames only. -/
theorem Stack.isInternal_of_call {s : Stack φ} {c : Call φ} {fault : Fault}
    (refused : (s.call c).answer.fault? = some fault) : fault.isInternal = true := by
  cases c with
  | pop =>
      cases hs : s.pop? with
      | none => rw [call_pop_of_none hs] at refused; cases refused; rfl
      | some popped => rw [call_pop_of_some hs] at refused; cases refused
  | swap frame =>
      cases hs : s.swap? frame with
      | none => rw [call_swap_of_none hs] at refused; cases refused; rfl
      | some swapped => rw [call_swap_of_some hs] at refused; cases refused
  | set level frame =>
      cases hs : s.set? level frame with
      | none => rw [call_set_of_none hs] at refused; cases refused; rfl
      | some written => rw [call_set_of_some hs] at refused; cases refused
  | _ => cases refused

/-- The limit refuses entries only, and those that it stands in the way of. -/
theorem Machine.hitsLimit_record (m : Machine φ) (mv : Move φ) :
    (m.record mv).hitsLimit = true ↔
      mv.isEntry = true ∧ m.stack.limit.refusal? m.stack.depth ≠ none := by
  cases mv with
  | call c =>
      constructor
      · intro hits
        unfold Record.hitsLimit at hits
        split at hits
        · rename_i limit hf
          cases Stack.isInternal_of_call (s := m.stack) (c := c) hf
        · cases hits
      · intro entry
        cases entry.1
  | enter manner frame =>
      unfold Record.hitsLimit
      rw [show (m.record (.enter manner frame)).result.answer.fault? = _
        from m.fault?_enter manner frame]
      cases m.stack.limit.refusal? m.stack.depth <;> simp [Move.isEntry]
  | leave =>
      have done : (m.record .leave).result.answer = .done := m.answer_leave
      simp [Record.hitsLimit, done, Answer.fault?, Move.isEntry]
  | forget =>
      have done : (m.record .forget).result.answer = .done := m.answer_forget
      simp [Record.hitsLimit, done, Answer.fault?, Move.isEntry]

/-- The same about any record of a history, under the limit that it began with. -/
theorem Happened.hitsLimit_iff {start : Machine φ} {past : List (Record φ)}
    (h : Happened start past)
    (whole : ∀ record ∈ past, ∀ next, record.move ≠ .call (.replace next)) {record : Record φ}
    (hr : record ∈ past) :
    record.hitsLimit = true ↔
      record.move.isEntry = true ∧
        start.stack.limit.refusal? record.before.stack.depth ≠ none := by
  obtain ⟨earlier, hs, same⟩ := h.of_mem hr
  have since := (List.suffix_cons _ _).trans hs
  have still := (h.of_suffix since).limit_eq (fun r hr => whole r (since.subset hr))
  rw [same, Machine.hitsLimit_record, ← still]
  rfl

/-! ## Two runs under two limits -/

/-- A run from a stack that was put under a limit. -/
def Stack.runUnder (s : Stack φ) (p : Program (Act φ) (Block φ)) (limit : Limit) :
    Recording φ × Outcome :=
  ({ stack := s.under limit } : Machine φ).run p

section

variable {s : Stack φ} {p : Program (Act φ) (Block φ)} {low high : Limit}

/-- A program that never asks for the limit finds out about it where an entry is refused. -/
theorem runUnder_hitsLimit_iff (blind : ∀ mv ∈ p.moves, mv.ignoresLimit = true) {record : Record φ}
    (hr : record ∈ (s.runUnder p low).1.history) :
    record.hitsLimit = true ↔
      record.move.isEntry = true ∧ low.refusal? record.before.stack.depth ≠ none := by
  have keeps := run_keeps_history { stack := s.under low } p
  exact keeps.happened.hitsLimit_iff
    (fun r hr => Move.ne_replace (blind _ (keeps.made r hr))) hr

/-- Where the lower limit refuses an entry first, the two runs had the same history. -/
def PartedByRefusal (low high : Limit) (r r' : Recording φ) : Prop :=
  ∃ m manner frame past cap,
    m.record (.enter manner frame) :: past <:+ r.history ∧
      ((Recast.under high).machine m).record (.enter manner frame)
        :: past.map (Recast.under high).record <:+ r'.history ∧
      m.stack.limit = low ∧ low.refusal? m.stack.depth = some cap

/-- Two runs under two limits part where the lower one refuses an entry, or not at all. -/
theorem runUnder_parted_or_same (blind : ∀ mv ∈ p.moves, mv.ignoresLimit = true) (le : low ≤ high) :
    PartedByRefusal low high (s.runUnder p low).1 (s.runUnder p high).1 ∨
      s.runUnder p high
        = ((Recast.under high).recording (s.runUnder p low).1, (s.runUnder p low).2) := by
  have keeps := run_keeps_history { stack := s.under low } p
  rcases (Recast.under high).run_recast { stack := s.under low } p with parted | same
  · obtain ⟨m, mv, past, here, there, unfit⟩ := parted
    -- the move that does not fit is an entry that one of the limits refuses
    have happened := keeps.happened.of_suffix here
    have member : mv ∈ p.moves := keeps.made _ (here.subset List.mem_cons_self)
    have met : m = now { stack := s.under low } past := congrArg Record.before happened.head_eq
    have limit : m.stack.limit = low := by
      rw [met]
      have earlier := (List.suffix_cons _ _).trans here
      exact (keeps.happened.of_suffix earlier).limit_eq
        (fun r hr => Move.ne_replace (blind _ (keeps.made r (earlier.subset hr))))
    cases mv with
    | enter manner frame =>
        cases hr : low.refusal? m.stack.depth with
        | some cap => exact .inl ⟨m, manner, frame, past, cap, here, there, limit, hr⟩
        | none =>
            have accepted : m.stack.limit.refusal? m.stack.depth = none := by rw [limit, hr]
            exact absurd (Recast.under_fits high (blind _ member)
              (fun _ => ⟨accepted, Limit.refusal?_mono le hr⟩)) unfit
    | call c => exact absurd (Recast.under_fits high (blind _ member) nofun) unfit
    | leave => exact absurd (Recast.under_fits high (blind _ member) nofun) unfit
    | forget => exact absurd (Recast.under_fits high (blind _ member) nofun) unfit
  · have ended : s.runUnder p high = (_, _) := same
    rw [Recast.outcome_under] at ended
    exact .inr ended

/-- A refusal stands in the history of the lower run, -/
theorem PartedByRefusal.hits {r r' : Recording φ} (h : PartedByRefusal low high r r') :
    ∃ record ∈ r.history, record.hitsLimit = true := by
  obtain ⟨m, manner, frame, past, cap, here, -, limit, hr⟩ := h
  refine ⟨_, here.subset List.mem_cons_self, (m.hitsLimit_record _).mpr ⟨rfl, ?_⟩⟩
  rw [limit, hr]
  exact Option.some_ne_none cap

/-- and in the history of the higher one an entry that the lower limit would have refused. -/
theorem PartedByRefusal.deep {r r' : Recording φ} (h : PartedByRefusal low high r r') :
    ∃ entry ∈ r'.history, entry.move.isEntry = true ∧
      low.refusal? entry.before.stack.depth ≠ none := by
  obtain ⟨m, manner, frame, past, cap, -, there, -, hr⟩ := h
  have depth : ((Recast.under high).machine m).stack.depth = m.stack.depth := rfl
  refine ⟨_, there.subset List.mem_cons_self, rfl, ?_⟩
  show low.refusal? ((Recast.under high).machine m).stack.depth ≠ none
  rw [depth, hr]
  exact Option.some_ne_none cap

theorem not_hitsLimit_unbounded (blind : ∀ mv ∈ p.moves, mv.ignoresLimit = true) :
    ∀ record ∈ (s.runUnder p .unbounded).1.history, record.hitsLimit = false := by
  intro record hr
  rw [← Bool.not_eq_true, runUnder_hitsLimit_iff blind hr]
  exact fun hits => hits.2 (Limit.refusal?_unbounded _)

theorem not_hitsLimit_of_same (blind : ∀ mv ∈ p.moves, mv.ignoresLimit = true) {limit : Limit}
    (same : s.runUnder p .unbounded
      = ((Recast.under .unbounded).recording (s.runUnder p limit).1, (s.runUnder p limit).2)) :
    ∀ record ∈ (s.runUnder p limit).1.history, record.hitsLimit = false := by
  intro record hr
  rw [← Recast.hitsLimit_under .unbounded]
  refine not_hitsLimit_unbounded (s := s) blind _ ?_
  rw [same]
  exact List.mem_map_of_mem hr

/-- Up to the first refusal every entry was made below the limit, and without a limit the
same was on record. -/
theorem PartedByRefusal.first_refusal (blind : ∀ mv ∈ p.moves, mv.ignoresLimit = true)
    {cap : Nat} (parted : PartedByRefusal { max := some cap } .unbounded
      (s.runUnder p { max := some cap }).1 (s.runUnder p .unbounded).1) :
    ∃ m manner frame past,
      m.record (.enter manner frame) :: past
        <:+ (s.runUnder p { max := some cap }).1.history ∧
      ((Recast.under .unbounded).machine m).record (.enter manner frame)
        :: past.map (Recast.under .unbounded).record <:+ (s.runUnder p .unbounded).1.history ∧
      (∀ record ∈ past, record.hitsLimit = false ∧
        (record.move.isEntry = true → record.before.stack.depth < cap)) ∧
      cap ≤ m.stack.depth ∧
      (m.enter manner frame).answer = .fault (.recursionLimit cap) := by
  obtain ⟨m, manner, frame, past, n, here, there, hm, hr⟩ := parted
  obtain ⟨hn, hle⟩ := Limit.refusal?_eq_some.mp hr
  cases hn
  refine ⟨m, manner, frame, past, here, there, fun record hrec => ?_, hle, ?_⟩
  · -- without a limit it is on record too, and there nothing is refused
    have copied := List.mem_map_of_mem (f := (Recast.under .unbounded).record) hrec
    have unlimited := not_hitsLimit_unbounded blind _
      (there.subset (List.mem_cons_of_mem _ copied))
    have unrefused : record.hitsLimit = false := by
      rwa [Recast.hitsLimit_under] at unlimited
    refine ⟨unrefused, fun enters => ?_⟩
    by_contra above
    have stopped : ({ max := some cap } : Limit).refusal? record.before.stack.depth ≠ none :=
      fun accepted => above ((Limit.refusal?_eq_none_of_max rfl).mp accepted)
    have hits := (runUnder_hitsLimit_iff blind
      (here.subset (List.mem_cons_of_mem _ hrec))).mpr ⟨enters, stopped⟩
    rw [unrefused] at hits
    cases hits
  · rw [← hm] at hr
    rw [Machine.enter_refused hr]

/-- A limit refuses nothing in a run exactly if it would have let in every entry of the run
without a limit. -/
theorem runUnder_hits_nowhere (blind : ∀ mv ∈ p.moves, mv.ignoresLimit = true) (limit : Limit) :
    (∀ record ∈ (s.runUnder p limit).1.history, record.hitsLimit = false) ↔
      ∀ entry ∈ (s.runUnder p .unbounded).1.history, entry.move.isEntry = true →
        limit.refusal? entry.before.stack.depth = none := by
  rcases runUnder_parted_or_same (s := s) blind (Limit.le_unbounded limit) with parted | same
  · -- neither side holds
    obtain ⟨refused, hr, hits⟩ := parted.hits
    obtain ⟨entry, he, enters, stopped⟩ := parted.deep
    constructor
    · intro none
      rw [none refused hr] at hits
      cases hits
    · intro all
      exact absurd (all entry he enters) stopped
  · have history : (s.runUnder p .unbounded).1.history
        = (s.runUnder p limit).1.history.map (Recast.under .unbounded).record :=
      congrArg (fun ended => ended.1.history) same
    rw [history]
    constructor
    · intro none entry he enters
      obtain ⟨record, hr, rfl⟩ := List.mem_map.mp he
      by_contra stopped
      have hits := (runUnder_hitsLimit_iff blind hr).mpr ⟨enters, stopped⟩
      rw [none record hr] at hits
      cases hits
    · intro all record hr
      rw [← Bool.not_eq_true, runUnder_hitsLimit_iff blind hr]
      rintro ⟨enters, stopped⟩
      have there := List.mem_map_of_mem (f := (Recast.under .unbounded).record) hr
      have accepted := all _ there enters
      exact stopped accepted

end

/-- **The limit is transparent until it is hit.** Take any stack and any program that never
asks for the limit and never replaces the stack as a whole.

If no entry is refused under one limit, the run under a higher one is the same run, record by
record and in its outcome, but for the limit itself. No entry is refused under a limit exactly
if, without any, every entry is made at a depth below it. And if without any limit some entry
is made as deep as `cap`, then the run under `cap` is the same up to the first such entry,
which is the first that it refuses, telling `cap`. -/
theorem limit_transparent (s : Stack φ) (p : Program (Act φ) (Block φ))
    (blind : ∀ mv ∈ p.moves, mv.ignoresLimit = true) :
    (∀ low high : Limit, low ≤ high →
      (∀ record ∈ (s.runUnder p low).1.history, record.hitsLimit = false) →
      s.runUnder p high
        = ((Recast.under high).recording (s.runUnder p low).1, (s.runUnder p low).2)) ∧
    (∀ limit : Limit, (∀ record ∈ (s.runUnder p limit).1.history, record.hitsLimit = false) ↔
      ∀ entry ∈ (s.runUnder p .unbounded).1.history, entry.move.isEntry = true →
        ∀ cap ∈ limit.max, entry.before.stack.depth < cap) ∧
    ∀ cap, (∃ entry ∈ (s.runUnder p .unbounded).1.history,
        entry.move.isEntry = true ∧ cap ≤ entry.before.stack.depth) →
      ∃ m manner frame past,
        m.record (.enter manner frame) :: past
          <:+ (s.runUnder p { max := some cap }).1.history ∧
        ((Recast.under .unbounded).machine m).record (.enter manner frame)
          :: past.map (Recast.under .unbounded).record <:+ (s.runUnder p .unbounded).1.history ∧
        (∀ record ∈ past, record.hitsLimit = false ∧
          (record.move.isEntry = true → record.before.stack.depth < cap)) ∧
        cap ≤ m.stack.depth ∧
        (m.enter manner frame).answer = .fault (.recursionLimit cap) := by
  refine ⟨?_, ?_, ?_⟩
  · intro low high le none
    rcases runUnder_parted_or_same (s := s) blind le with parted | same
    · obtain ⟨refused, hr, hits⟩ := parted.hits
      rw [none refused hr] at hits
      cases hits
    · exact same
  · intro limit
    rw [runUnder_hits_nowhere blind limit]
    simp only [Limit.refusal?_eq_none, Option.mem_def]
  · rintro cap ⟨entry, he, enters, deep⟩
    let limit : Limit := { max := some cap }
    rcases runUnder_parted_or_same (s := s) blind (Limit.le_unbounded limit) with parted | same
    · exact parted.first_refusal blind
    · -- nothing was refused under the limit, so no entry can have been this deep
      have accepted := (runUnder_hits_nowhere blind limit).mp
        (not_hitsLimit_of_same blind same) entry he enters
      have below : entry.before.stack.depth < cap :=
        (Limit.refusal?_eq_none_of_max rfl).mp accepted
      omega

/-- Two entries, one inside the other, the second of which is passed on if it is refused. -/
def nesting : Program (Act Frame) (Block Frame) :=
  .block (.enter (.numbered 1) false false)
    (.block (.enterHidden (.numbered 2) true) (.act (.call .pop) .done) .done)
    .done

theorem limit_transparent_of_nesting :
    let s : Stack Frame := .ofList {} [.numbered 0]
    (∀ mv ∈ nesting.moves, mv.ignoresLimit = true) ∧
      (s.runUnder nesting .unbounded).1.history
        = (s.runUnder nesting { max := some 3 }).1.history.map (Recast.under .unbounded).record ∧
      ∃ (m : Machine Frame) (manner : Manner) (frame : Frame) (past : List (Record Frame)),
        m.record (.enter manner frame) :: past
          <:+ (s.runUnder nesting { max := some 2 }).1.history ∧
        (m.enter manner frame).answer = .fault (.recursionLimit 2) := by
  intro s
  have blind : ∀ mv ∈ nesting.moves, mv.ignoresLimit = true := List.all_eq_true.mp rfl
  have unrefused : ∀ record ∈ (s.runUnder nesting { max := some 3 }).1.history,
      record.hitsLimit = false := by decide
  have deep : ∃ entry ∈ (s.runUnder nesting .unbounded).1.history,
      entry.move.isEntry = true ∧ 2 ≤ entry.before.stack.depth := by decide
  obtain ⟨alike, -, refused⟩ := limit_transparent s nesting blind
  have same := alike { max := some 3 } .unbounded (Limit.le_unbounded _) unrefused
  obtain ⟨m, manner, frame, past, here, -, -, -, answer⟩ := refused 2 deep
  exact ⟨blind, congrArg (fun ended => ended.1.history) same, m, manner, frame, past, here, answer⟩

end CallPath
