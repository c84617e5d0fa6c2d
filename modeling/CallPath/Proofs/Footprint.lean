import CallPath.Proofs.History
import CallPath.Session.Frame

/-!
# What a run leaves alone

Slots are counted from the bottom, so a frame keeps its slot for as long as it is on the
stack. A move empties slots from some slot on upwards, or writes one slot, or does neither;
the lowest slot it did either to bounds what it could spoil. Everything below the lowest
slot touched so far is still as it was.

The fact behind it is about one slot at a time (`Happened.slot_kept`): a slot that no move
emptied is still occupied, by the frame that was last written there or else by the one it
began with. It is a fact about any history, so it can be used for a whole run and for the
moves inside one body just as well. For a body it says what the caller gets back. The cut
at the exit goes by a depth remembered from before the body, while the body counts levels
from whatever top it has; both come down to slots, and there they meet.
-/

namespace CallPath

variable {φ : Type}

namespace Record

/-- The lowest slot that a move emptied. It emptied all occupied slots above it, too. -/
def emptied (r : Record φ) : Option Nat :=
  match r.move, r.result.answer.fault?, r.before.guards with
  | .call .pop, none, _ => some (r.before.stack.depth - 1)
  | .call .clear, _, _ => if 0 < r.before.stack.depth then some 0 else none
  | .leave, _, guard :: _ =>
      if guard.entryDepth < r.before.stack.depth then some guard.entryDepth else none
  | _, _, _ => none

/-- The slot that a move wrote, and the frame it put there. -/
def written (r : Record φ) : Option (Nat × φ) :=
  match r.move, r.result.answer.fault? with
  | .call (.swap frame), none => some (r.before.stack.depth - 1, frame)
  | .call (.set level frame), none => some (r.before.stack.depth - 1 - level, frame)
  | _, _ => none

/-- The lowest slot that a move emptied, or the slot that it wrote. -/
def touched (r : Record φ) : List Nat := r.emptied.toList ++ (r.written.map Prod.fst).toList

/-- The frame that a move wrote to a slot. -/
def writtenTo (r : Record φ) (slot : Nat) : Option φ :=
  (r.written.filter (fun w => w.1 = slot)).map Prod.snd

end Record

/-- The lowest slot emptied so far. -/
def lowestEmptied (past : List (Record φ)) : Option Nat := (past.filterMap Record.emptied).min?

/-- The lowest slot touched so far. -/
def lowestTouched (past : List (Record φ)) : Option Nat := (past.flatMap Record.touched).min?

/-- The frame that was last written to a slot. -/
def lastWritten (past : List (Record φ)) (slot : Nat) : Option φ :=
  past.findSome? (fun record => record.writtenTo slot)

theorem lastWritten_cons (record : Record φ) (past : List (Record φ)) (slot : Nat) :
    lastWritten (record :: past) slot = (record.writtenTo slot).or (lastWritten past slot) := by
  unfold lastWritten
  rw [List.findSome?_cons]
  cases record.writtenTo slot <;> rfl

theorem bound_of_min? {l : List Nat} {bound : Nat} (h : ∀ low ∈ l.min?, bound ≤ low) :
    ∀ x ∈ l, bound ≤ x := by
  cases hm : l.min? with
  | none =>
      rw [List.min?_eq_none_iff.mp hm]
      exact fun x hx => absurd hx List.not_mem_nil
  | some low => exact (List.le_min?_iff hm).mp (h low hm)

theorem touched_of_writtenTo {record : Record φ} {slot : Nat} {frame : φ}
    (h : record.writtenTo slot = some frame) : slot ∈ record.touched := by
  obtain ⟨⟨target, written⟩, hw, -⟩ := Option.map_eq_some_iff.mp h
  obtain ⟨hw, ht⟩ := Option.filter_eq_some_iff.mp hw
  refine List.mem_append_right _ ?_
  rw [hw, ← of_decide_eq_true ht]
  exact List.mem_singleton_self target

/-- Emptying a slot touches it, and so does writing it. -/
theorem untouched_below {past : List (Record φ)} {bound : Nat}
    (h : ∀ low ∈ lowestTouched past, bound ≤ low) :
    (∀ low ∈ lowestEmptied past, bound ≤ low) ∧ ∀ slot < bound, lastWritten past slot = none := by
  have each : ∀ record ∈ past, ∀ slot ∈ record.touched, bound ≤ slot := fun record hr slot hs =>
    bound_of_min? h slot (List.mem_flatMap.mpr ⟨record, hr, hs⟩)
  refine ⟨?_, ?_⟩
  · intro low hl
    obtain ⟨record, hr, he⟩ := List.mem_filterMap.mp (List.min?_mem hl)
    refine each record hr low (List.mem_append_left _ ?_)
    rw [he]
    exact List.mem_singleton_self low
  · intro slot hslot
    refine List.findSome?_eq_none_iff.mpr (fun record hr => ?_)
    cases hw : record.writtenTo slot with
    | none => rfl
    | some frame =>
        exact absurd (each record hr slot (touched_of_writtenTo hw)) (Nat.not_le.mpr hslot)

/-- What was touched earlier was touched by now. -/
theorem lowestTouched_le {past earlier : List (Record φ)} (h : earlier <:+ past) (none : Nat) :
    ∀ low ∈ lowestTouched earlier, (lowestTouched past).getD none ≤ low := by
  intro low hl
  obtain ⟨record, hr, ht⟩ := List.mem_flatMap.mp (List.min?_mem hl)
  have hmem : low ∈ past.flatMap Record.touched := List.mem_flatMap.mpr ⟨record, h.subset hr, ht⟩
  exact List.min?_getD_le_of_mem hmem

/-! ## Calls, slot by slot -/

/-- A slot that is occupied and holds a certain frame. -/
def Stack.Holds (s : Stack φ) (slot : Nat) (frame : Option φ) : Prop :=
  slot < s.depth ∧ s.frames[slot]? = frame

/-- A write changes the slot it goes to and no other. -/
theorem Stack.holds_of_write {s next : Stack φ} {target slot : Nat} {frame : φ}
    (h : next.frames = s.frames.setIfInBounds target frame) (hslot : slot < s.depth) :
    next.Holds slot
      ((((some (target, frame)).filter (fun w => w.1 = slot)).map Prod.snd).or
        s.frames[slot]?) := by
  have hsize : slot < s.frames.size := hslot
  refine ⟨?_, ?_⟩
  · show slot < next.frames.size
    rw [h, Array.size_setIfInBounds]
    exact hsize
  · rw [h, Array.getElem?_setIfInBounds]
    by_cases ht : target = slot
    · rw [if_pos ht, if_pos (ht ▸ hsize), Option.filter_some, if_pos (by simpa using ht)]
      rfl
    · rw [if_neg ht, Option.filter_some, if_neg (by simpa using ht)]
      rfl

theorem Stack.holds_of_push {s : Stack φ} {slot : Nat} (frame : φ) (h : slot < s.depth) :
    (s.push frame).Holds slot s.frames[slot]? := by
  have hsize : slot < s.frames.size := h
  refine ⟨?_, ?_⟩
  · show slot < (s.frames.push frame).size
    rw [Array.size_push]
    exact Nat.lt_succ_of_lt hsize
  · show (s.frames.push frame)[slot]? = s.frames[slot]?
    rw [Array.getElem?_push, if_neg (Nat.ne_of_lt hsize)]

theorem Stack.holds_of_pop {s rest : Stack φ} {slot : Nat} {frame : φ}
    (h : s.pop? = some (frame, rest)) (hslot : slot < s.depth - 1) :
    rest.Holds slot s.frames[slot]? := by
  unfold Stack.pop? at h
  obtain ⟨top, -, he⟩ := Option.map_eq_some_iff.mp h
  cases he
  have hsize : slot < s.frames.size - 1 := hslot
  refine ⟨?_, ?_⟩
  · show slot < s.frames.pop.size
    rw [Array.size_pop]
    exact hsize
  · show s.frames.pop[slot]? = s.frames[slot]?
    rw [Array.getElem?_pop, if_pos hsize]

theorem Stack.frames_of_swap {s next : Stack φ} {frame old : φ}
    (h : s.swap? frame = some (old, next)) :
    next.frames = s.frames.setIfInBounds (s.depth - 1) frame := by
  unfold Stack.swap? at h
  obtain ⟨top, -, he⟩ := Option.map_eq_some_iff.mp h
  cases he
  rfl

theorem Stack.frames_of_set {s next : Stack φ} {level : Nat} {frame old : φ}
    (h : s.set? level frame = some (old, next)) :
    next.frames = s.frames.setIfInBounds (s.depth - 1 - level) frame := by
  unfold Stack.set? Stack.slot? at h
  obtain ⟨slot, hslot, h⟩ := Option.bind_eq_some_iff.mp h
  obtain ⟨top, -, he⟩ := Option.map_eq_some_iff.mp h
  cases he
  rw [(slotOf?_eq_some.mp hslot).2]
  rfl

theorem Stack.holds_of_truncate {s : Stack φ} {slot depth : Nat} (h : slot < s.depth)
    (hd : slot < depth) : (s.truncate depth).Holds slot s.frames[slot]? := by
  have hcut : slot < min depth s.frames.size := Nat.lt_min.mpr ⟨hd, h⟩
  refine ⟨?_, ?_⟩
  · show slot < (s.frames.extract 0 depth).size
    rw [Array.size_extract]
    exact hcut
  · show (s.frames.extract 0 depth)[slot]? = s.frames[slot]?
    rw [Array.getElem?_extract, Nat.sub_zero, if_pos hcut, Nat.zero_add]

variable [Sentinel φ] [DecidableEq φ]

/-- A call keeps every slot that it does not empty, and writes no slot but the one it says. -/
theorem Machine.call_slot {m : Machine φ} {c : Call φ} (whole : ∀ next, c ≠ .replace next)
    {slot : Nat} (hslot : slot < m.stack.depth)
    (kept : ∀ low, (m.record (.call c)).emptied = some low → slot < low) :
    (m.call c).machine.stack.Holds slot
      (((m.record (.call c)).writtenTo slot).or m.stack.frames[slot]?) := by
  have same : m.stack.Holds slot m.stack.frames[slot]? := ⟨hslot, rfl⟩
  cases c with
  | push frame => exact Stack.holds_of_push frame hslot
  | pop =>
      unfold Record.emptied Machine.record Machine.step Machine.call Stack.call at kept
      unfold Machine.call Stack.call
      dsimp only at kept ⊢
      cases hp : m.stack.pop? with
      | none => exact same
      | some popped => rw [hp] at kept; exact Stack.holds_of_pop hp (kept _ rfl)
  | swap frame =>
      unfold Record.writtenTo Record.written Machine.record Machine.step Machine.call Stack.call
      dsimp only
      cases hs : m.stack.swap? frame with
      | none => exact same
      | some swapped => exact Stack.holds_of_write (Stack.frames_of_swap hs) hslot
  | set level frame =>
      unfold Record.writtenTo Record.written Machine.record Machine.step Machine.call Stack.call
      dsimp only
      cases hs : m.stack.set? level frame with
      | none => exact same
      | some written => exact Stack.holds_of_write (Stack.frames_of_set hs) hslot
  | clear =>
      -- an occupied slot is never below slot 0, so `kept` cannot hold
      have low := kept 0 (if_pos (Nat.zero_lt_of_lt hslot))
      exact absurd low (Nat.not_lt_zero slot)
  | replace next => exact absurd rfl (whole next)
  | get level => exact same
  | top => exact same
  | frame level => exact same
  | isNative frame => exact same
  | depth => exact same
  | limit => exact same
  | list => exact same
  | iterate source calls => exact same
  | copy => exact same

/-- An exit keeps every slot below the depth that its guard remembers. -/
theorem Machine.holds_of_release {s : Stack φ} {guard : Guard φ} {slot : Nat}
    (hslot : slot < s.depth) (below : slot < guard.entryDepth) :
    (Machine.release s guard).1.Holds slot s.frames[slot]? := by
  by_cases balanced : s.depth = guard.entryDepth + 1
  · -- a balanced exit pops the slot that the guard remembers, and that one only
    obtain ⟨frame, rest, hp, -⟩ := Stack.pop?_of_depth balanced
    rw [Machine.release_balanced balanced hp]
    exact Stack.holds_of_pop hp (by omega)
  · rw [Machine.release_unbalanced balanced]
    exact Stack.holds_of_truncate hslot below

/-- A move keeps every slot that it does not empty, and writes no slot but the one it says. -/
theorem Machine.step_slot {m : Machine φ} {mv : Move φ} (whole : ∀ next, mv ≠ .call (.replace next))
    {slot : Nat} (hslot : slot < m.stack.depth)
    (kept : ∀ low, (m.record mv).emptied = some low → slot < low) :
    (m.step mv).machine.stack.Holds slot
      (((m.record mv).writtenTo slot).or m.stack.frames[slot]?) := by
  cases mv with
  | call c => exact Machine.call_slot (fun next hc => whole next (congrArg Move.call hc)) hslot kept
  | enter manner frame =>
      show (m.enter manner frame).machine.stack.Holds slot m.stack.frames[slot]?
      rcases m.enter_cases manner frame with ⟨-, hm⟩ | ⟨-, hm⟩
      · rw [hm]
        exact ⟨hslot, rfl⟩
      · rw [hm]
        exact Stack.holds_of_push frame hslot
  | leave =>
      obtain ⟨stack, guards, forgotten⟩ := m
      cases guards with
      | nil => exact ⟨hslot, rfl⟩
      | cons guard rest =>
          refine Machine.holds_of_release hslot ?_
          by_cases hd : guard.entryDepth < stack.depth
          · exact kept guard.entryDepth (if_pos hd)
          · exact Nat.lt_of_lt_of_le hslot (Nat.le_of_not_lt hd)
  | forget =>
      obtain ⟨stack, guards, forgotten⟩ := m
      cases guards <;> exact ⟨hslot, rfl⟩

/-! ## Histories, slot by slot -/

/-- **A slot that is never emptied** stays occupied, and holds what was last written to it,
or else what it held in the beginning. -/
theorem Happened.slot_kept {start : Machine φ} {past : List (Record φ)} (h : Happened start past)
    (whole : ∀ record ∈ past, ∀ next, record.move ≠ .call (.replace next)) {slot : Nat}
    (hslot : slot < start.stack.depth)
    (kept : ∀ record ∈ past, ∀ low, record.emptied = some low → slot < low) :
    (now start past).stack.Holds slot
      ((lastWritten past slot).or start.stack.frames[slot]?) := by
  induction h with
  | nil => exact ⟨hslot, rfl⟩
  | @move past mv _ ih =>
      obtain ⟨occupied, holds⟩ := ih (fun record hr => whole record (List.mem_cons_of_mem _ hr))
        (fun record hr => kept record (List.mem_cons_of_mem _ hr))
      have step := Machine.step_slot (whole _ List.mem_cons_self) occupied
        (kept _ List.mem_cons_self)
      rw [lastWritten_cons, Option.or_assoc, ← holds]
      exact step

/-- **Below the lowest emptied slot** the stack still has what it had, save for what was
written there. -/
theorem Happened.kept_below {start : Machine φ} {past : List (Record φ)} (h : Happened start past)
    (whole : ∀ record ∈ past, ∀ next, record.move ≠ .call (.replace next)) {bound : Nat}
    (hbound : bound ≤ start.stack.depth) (kept : ∀ low ∈ lowestEmptied past, bound ≤ low) :
    bound ≤ (now start past).stack.depth ∧ ∀ slot < bound,
      (now start past).stack.Holds slot ((lastWritten past slot).or start.stack.frames[slot]?) := by
  have each : ∀ record ∈ past, ∀ low, record.emptied = some low → bound ≤ low :=
    fun record hr low hl => bound_of_min? kept low (List.mem_filterMap.mpr ⟨record, hr, hl⟩)
  have slots : ∀ slot < bound, (now start past).stack.Holds slot
      ((lastWritten past slot).or start.stack.frames[slot]?) := fun slot hslot =>
    h.slot_kept whole (Nat.lt_of_lt_of_le hslot hbound)
      (fun record hr low hl => Nat.lt_of_lt_of_le hslot (each record hr low hl))
  refine ⟨?_, slots⟩
  cases bound with
  | zero => exact Nat.zero_le _
  | succ n => exact (slots n (Nat.lt_succ_self n)).1

/-- **Below the lowest touched slot** nothing has changed. -/
theorem Happened.untouched {start : Machine φ} {past : List (Record φ)} (h : Happened start past)
    (whole : ∀ record ∈ past, ∀ next, record.move ≠ .call (.replace next)) {bound : Nat}
    (hbound : bound ≤ start.stack.depth) (kept : ∀ low ∈ lowestTouched past, bound ≤ low) :
    bound ≤ (now start past).stack.depth ∧ ∀ slot < bound,
      (now start past).stack.frames[slot]? = start.stack.frames[slot]? := by
  obtain ⟨unemptied, unwritten⟩ := untouched_below kept
  obtain ⟨deep, slots⟩ := h.kept_below whole hbound unemptied
  refine ⟨deep, fun slot hslot => ?_⟩
  rw [(slots slot hslot).2, unwritten slot hslot]
  rfl

omit [Sentinel φ] [DecidableEq φ] in
theorem Stack.frames_ext {s t : Stack φ} (depth : s.depth = t.depth)
    (slots : ∀ slot < t.depth, s.frames[slot]? = t.frames[slot]?) : s.frames = t.frames := by
  refine Array.ext_getElem? (fun slot => ?_)
  by_cases hslot : slot < t.depth
  · exact slots slot hslot
  · have high : t.frames.size ≤ slot := Nat.le_of_not_lt hslot
    have high' : s.frames.size ≤ slot := Nat.le_trans (Nat.le_of_eq depth) high
    rw [Array.getElem?_eq_none high, Array.getElem?_eq_none high']

/-! ## Bodies -/

/-- **What a caller gets back.** A body that is about to be left began with an entry. If since
then no slot was emptied below the depth that the entry met, the exit restores that depth,
and every slot holds what the body last wrote there, or else what it held before. -/
theorem Happened.given_back {start : Machine φ} (bare : start.guards = [])
    {earlier : List (Record φ)} (h : Happened start earlier) {guard : Guard φ}
    {guards : List (Guard φ)} (hguards : (now start earlier).guards = guard :: guards)
    (whole : ∀ record ∈ earlier, ∀ next, record.move ≠ .call (.replace next)) :
    ∃ opening inside manner frame, (openings earlier).head? = some opening ∧
      earlier = inside ++ (now start opening).record (.enter manner frame) :: opening ∧
      ((∀ low ∈ lowestEmptied inside, (now start opening).stack.depth ≤ low) →
        (now start earlier).leave.machine.stack.depth = (now start opening).stack.depth ∧
        ∀ slot < (now start opening).stack.depth,
          (now start earlier).leave.machine.stack.frames[slot]?
            = (lastWritten inside slot).or (now start opening).stack.frames[slot]?) := by
  obtain ⟨opening, innermost, hdepth⟩ := h.innermost bare hguards
  obtain ⟨inside, manner, frame, accepted, split⟩ :=
    h.entry_of_opening (List.mem_of_mem_head? innermost)
  refine ⟨opening, inside, manner, frame, innermost, split, fun kept => ?_⟩
  -- the body ran on the stack that the entry had pushed its frame on
  have entered : ((now start opening).record (.enter manner frame)).result.machine.stack
      = (now start opening).stack.push frame := by
    rcases (now start opening).enter_cases manner frame with ⟨⟨fault, hf⟩, -⟩ | ⟨-, hm⟩
    · rw [accepted] at hf
      exact absurd hf (by simp)
    · show ((now start opening).enter manner frame).machine.stack = _
      rw [hm]
  have ended : (now start opening).stack.depth ≤ (now start earlier).stack.depth ∧
      ∀ slot < (now start opening).stack.depth, (now start earlier).stack.Holds slot
        ((lastWritten inside slot).or (now start opening).stack.frames[slot]?) := by
    rw [split] at h whole ⊢
    obtain ⟨body, same⟩ := h.since
    rw [same]
    have pushed : (now start opening).stack.depth
        ≤ ((now start opening).stack.push frame).depth := by
      rw [Stack.depth_push]
      exact Nat.le_succ _
    obtain ⟨deep, slots⟩ := body.kept_below
      (fun record hr => whole record (List.mem_append_left _ hr))
      (entered ▸ pushed) kept
    refine ⟨deep, fun slot hslot => ?_⟩
    have held := slots slot hslot
    rw [now, entered, (Stack.holds_of_push frame hslot).2] at held
    exact held
  obtain ⟨deep, slots⟩ := ended
  rw [Machine.stack_leave hguards]
  refine ⟨?_, fun slot hslot => ?_⟩
  · rw [Machine.depth_release, hdepth]
    exact Nat.min_eq_right deep
  · obtain ⟨occupied, holds⟩ := slots slot hslot
    rw [← holds]
    exact (Machine.holds_of_release occupied (hdepth ▸ hslot)).2

/-- **The footprint of a run.** Take any program that never replaces the stack as a whole. At
every point of its run, whatever lies below the lowest slot touched so far is as it was in
the beginning, and the stack has never been less deep than that. Whenever a guard is left,
its body began with an entry; if the body touched no slot below the depth that the entry
met, the stack is as it was then, frame by frame; and if it emptied none of these slots but
wrote some, the depth is as it was then, and only what was last written there is new. -/
theorem run_footprint (s : Stack φ) (p : Program (Act φ) (Block φ))
    (whole : ∀ next, .call (.replace next) ∉ p.moves) :
    let start : Machine φ := { stack := s }
    (∀ past, past <:+ (start.run p).1.history →
      let kept := min ((lowestTouched past).getD s.depth) s.depth
      (∀ slot < kept, (now start past).stack.frames[slot]? = s.frames[slot]?) ∧
        ∀ earlier, earlier <:+ past → kept ≤ (now start earlier).stack.depth) ∧
    ∀ exit earlier guard guards, exit :: earlier <:+ (start.run p).1.history →
      exit.move = .leave → exit.before.guards = guard :: guards →
      ∃ opening inside manner frame, (openings earlier).head? = some opening ∧
        earlier = inside ++ (now start opening).record (.enter manner frame) :: opening ∧
        let before := (now start opening).stack
        let after := exit.result.machine.stack
        ((∀ low ∈ lowestTouched inside, before.depth ≤ low) → after.frames = before.frames) ∧
        ((∀ low ∈ lowestEmptied inside, before.depth ≤ low) →
          after.depth = before.depth ∧ ∀ slot < before.depth,
            after.frames[slot]? = (lastWritten inside slot).or before.frames[slot]?) := by
  intro start
  obtain ⟨happened, -, made⟩ := run_keeps_history start p
  have unreplaced : ∀ past, past <:+ (start.run p).1.history →
      ∀ record ∈ past, ∀ next, record.move ≠ .call (.replace next) := by
    intro past hs record hr next hc
    exact whole next (hc ▸ made record (hs.subset hr))
  refine ⟨?_, ?_⟩
  · intro past hs kept
    -- what was touched earlier was touched by now, so the bound of now does for every point
    have below : ∀ earlier, earlier <:+ past → kept ≤ (now start earlier).stack.depth ∧
        ∀ slot < kept, (now start earlier).stack.frames[slot]? = s.frames[slot]? := by
      intro earlier he
      exact (happened.of_suffix (he.trans hs)).untouched (unreplaced _ (he.trans hs))
        (Nat.min_le_right _ _)
        (fun low hl => Nat.le_trans (Nat.min_le_left _ _) (lowestTouched_le he s.depth low hl))
    exact ⟨(below past (List.suffix_refl past)).2, fun earlier he => (below earlier he).1⟩
  · intro exit earlier guard guards hs hleave hguards
    obtain ⟨hearlier, hexit⟩ := happened.record_at hs hleave
    rw [hexit] at hguards ⊢
    obtain ⟨opening, inside, manner, frame, innermost, split, back⟩ :=
      (happened.of_suffix hearlier).given_back rfl hguards (unreplaced _ hearlier)
    refine ⟨opening, inside, manner, frame, innermost, split, fun untouched => ?_, back⟩
    obtain ⟨unemptied, unwritten⟩ := untouched_below untouched
    obtain ⟨hdepth, slots⟩ := back unemptied
    refine Stack.frames_ext hdepth (fun slot hslot => (slots slot hslot).trans ?_)
    rw [unwritten slot hslot]
    rfl

/-- A body that overwrites the top frame of its caller, leaves one of its own behind and
fails, and is caught. -/
def overwriting : Program (Act Frame) (Block Frame) :=
  .block .attempt
    (.block (.enter (.numbered 2) true false)
      (.act (.call (.set 1 (.numbered 3))) <|
        .act (.call (.push (.numbered 4))) <|
        .act (.fail "lost") .done)
      .done)
    .done

theorem footprint_of_overwriting :
    let s : Stack Frame := .ofList {} [.numbered 1, .numbered 0]
    let start : Machine Frame := { stack := s }
    let history := (start.run overwriting).1.history
    (∀ next, .call (.replace next) ∉ overwriting.moves) ∧ lowestTouched history = some 1 ∧
      (now start history).stack.frames[0]? = some (.numbered 0) := by
  intro s start history
  have whole : ∀ next, .call (.replace next) ∉ overwriting.moves := by
    intro next h
    simp [overwriting, Program.moves, Program.acts, Program.blocks, Act.moves, Block.moves] at h
  have kept := ((run_footprint s overwriting whole).1 history (List.suffix_refl _)).1
  exact ⟨whole, by decide, kept 0 (by decide)⟩

end CallPath
