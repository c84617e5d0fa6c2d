import CallPath.Proofs.EventLog
import Mathlib.Algebra.Group.Nat.Defs
import Mathlib.Data.List.Infix
import Mathlib.Logic.ExistsUnique

/-!
# Machine words are enough

A depth is a natural number here and a level too, and a frame that is not there is `none`. What
runs has words of 64 bits, in which a difference may wrap and a sum may not fit, and it stops at a
slot that is not in the array. So what the stack computes is written down once more, in words, with
everything that would stop it as an outcome of its own (`Trap`). None of that ever happens, and what
comes out is what the numbers say.

Between levels and slots this is a matter of the checks alone: `toNat_slotOf?` holds of any two
words. The one sum is different. A guard compares the depth it finds with the depth it recorded and
one more, and nothing checks that this fits. It does because of where the record comes from: it was
the length of an array when the guard was entered, and no body can change it afterwards
(`Happened.entryDepth_lt`). Much hangs on that one sum. If it wrapped to zero, a guard would find the
depth it expects on an empty stack, and its pop would fail.
-/

namespace CallPath

/-- What stops a computation in words. -/
inductive Trap where
  /-- A sum that does not fit into a word. -/
  | overflow
  /-- A slot that is not in the array. -/
  | outOfRange
  deriving DecidableEq

/-! ## The computations in words -/

/-- A sum, if it fits. -/
def addInWords (a b : UInt64) : Except Trap UInt64 :=
  if a.toNat + b.toNat < 2 ^ 64 then .ok (a + b) else .error .overflow

/-- A difference, or zero where there is not enough to subtract from. -/
def subOrZero (a b : UInt64) : UInt64 := (checkedSub? a b).getD 0

section

variable {φ : Type}

/-- The frame in a slot, which has to be there. -/
def fetch (frames : Array φ) (slot : UInt64) : Except Trap φ :=
  if h : slot.toNat < frames.size then .ok frames[slot.toNat] else .error .outOfRange

/-- Writes to a slot, which has to be there. -/
def overwrite (frames : Array φ) (slot : UInt64) (frame : φ) : Except Trap (Array φ) :=
  if h : slot.toNat < frames.size then .ok (frames.set slot.toNat frame h) else .error .outOfRange

/-- The slots below `stop`, all of which have to be there. -/
def slice (frames : Array φ) (stop : UInt64) : Except Trap (Array φ) :=
  if stop.toNat ≤ frames.size then .ok (frames.take stop.toNat) else .error .outOfRange

/-- How many frames there are, as a word. -/
def Stack.wordSize (s : Stack φ) : UInt64 := .ofNat s.frames.size

def Stack.wordSlot? (s : Stack φ) (level : UInt64) : Option UInt64 := slotOf? s.wordSize level

def Stack.frameInWords (s : Stack φ) (level : UInt64) : Except Trap (Option φ) :=
  match s.wordSlot? level with
  | none => .ok none
  | some slot => (fetch s.frames slot).map some

def Stack.setInWords (s : Stack φ) (level : UInt64) (frame : φ) :
    Except Trap (Option (φ × Stack φ)) :=
  match s.wordSlot? level with
  | none => .ok none
  | some slot => do
      let old ← fetch s.frames slot
      let frames ← overwrite s.frames slot frame
      return some (old, { s with frames })

def Stack.callersInWords (s : Stack φ) : Except Trap (Stack φ) :=
  (slice s.frames (subOrZero s.wordSize 1)).map (fun frames => { s with frames })

/-- The depth that a guard recorded, as a word. -/
def Guard.wordDepth (guard : Guard φ) : UInt64 := .ofNat guard.entryDepth

end

def Machine.releaseInWords {φ : Type} [Sentinel φ] [DecidableEq φ] (stack : Stack φ)
    (guard : Guard φ) : Except Trap (Stack φ × Effect φ) := do
  -- the sum comes before the comparison, and so before either way out
  let expected ← addInWords guard.wordDepth 1
  if stack.wordSize = expected then
    let reply := stack.call .pop
    return (reply.stack,
      { events := reply.effect.events ++ (reply.answer.fault?.map Event.guardPopFailed).toList
        dropped := reply.answer.kept ++ [guard.frame] })
  else
    let cut := stack.truncate guard.wordDepth.toNat
    return (cut,
      { events := [.unbalanced stack.wordSize.toNat expected.toNat, .truncated cut.wordSize.toNat]
        dropped := stack.beyond guard.wordDepth.toNat ++ [guard.frame] })

section

variable {φ : Type} {s : Stack φ}

/-! ## Levels and slots -/

theorem toNat_subOrZero (a b : UInt64) : (subOrZero a b).toNat = a.toNat - b.toNat := by
  unfold subOrZero checkedSub?
  by_cases enough : b ≤ a
  · rw [if_pos enough, Option.getD_some, UInt64.toNat_sub_of_le a b enough]
  · have less : a.toNat < b.toNat :=
      Nat.lt_of_not_le (fun le => enough (UInt64.le_iff_toNat_le.mpr le))
    rw [if_neg enough, Option.getD_none, UInt64.toNat_zero]
    omega

theorem Stack.toNat_wordSize (small : s.depth < 2 ^ 63) : s.wordSize.toNat = s.depth :=
  UInt64.toNat_ofNat_of_lt' (Nat.lt_trans small (by decide))

theorem Stack.toNat_wordSlot? (small : s.depth < 2 ^ 63) (level : UInt64) :
    (s.wordSlot? level).map UInt64.toNat = s.slot? level.toNat := by
  unfold wordSlot? slot?
  rw [toNat_slotOf?, toNat_wordSize small]
  rfl

/-- In words, too, the levels of a stack are paired off with its slots, in reverse order. -/
structure Stack.PairsOff (s : Stack φ) : Prop where
  /-- A level has a slot exactly if it is on the stack, -/
  isSome_iff : ∀ level, (s.wordSlot? level).isSome ↔ level < s.wordSize
  /-- and the slot is one of the array. -/
  inside : ∀ level slot, s.wordSlot? level = some slot → slot < s.wordSize
  /-- Every slot is that of one level, -/
  onto : ∀ slot, slot < s.wordSize → ∃! level, s.wordSlot? level = some slot
  /-- and of two levels the lower one has the higher slot. -/
  reverses : ∀ level lower slot higher, s.wordSlot? level = some slot →
    s.wordSlot? lower = some higher → (lower < level ↔ slot < higher)

/-- What is as far from the one end as `place` is from the other is a word as well. -/
theorem exists_mirrored (size place : UInt64) :
    ∃ mirrored : UInt64, mirrored.toNat = size.toNat - 1 - place.toNat := by
  have bound := size.toNat_lt
  have fits : size.toNat - 1 - place.toNat < 2 ^ 64 := by omega
  exact ⟨.ofNat _, UInt64.toNat_ofNat_of_lt' fits⟩

theorem Stack.pairsOff (s : Stack φ) : s.PairsOff where
  isSome_iff := by
    intro level
    rw [Option.isSome_iff_exists]
    constructor
    · intro found
      obtain ⟨slot, hs⟩ := found
      exact UInt64.lt_iff_toNat_lt.mpr (slotOf?_eq_some_word.mp hs).1
    · intro onStack
      obtain ⟨slot, there⟩ := exists_mirrored s.wordSize level
      exact ⟨slot, slotOf?_eq_some_word.mpr ⟨UInt64.lt_iff_toNat_lt.mp onStack, there⟩⟩
  inside := by
    intro level slot hs
    obtain ⟨onStack, there⟩ := slotOf?_eq_some_word.mp hs
    rw [UInt64.lt_iff_toNat_lt]
    omega
  onto := by
    intro slot hs
    have inside : slot.toNat < s.wordSize.toNat := UInt64.lt_iff_toNat_lt.mp hs
    obtain ⟨level, here⟩ := exists_mirrored s.wordSize slot
    refine ⟨level, slotOf?_eq_some_word.mpr (by omega), ?_⟩
    intro other found
    obtain ⟨onStack, there⟩ := slotOf?_eq_some_word.mp found
    rw [← UInt64.toNat_inj]
    omega
  reverses := by
    intro level lower slot higher hs hh
    obtain ⟨onStack, there⟩ := slotOf?_eq_some_word.mp hs
    obtain ⟨onStack', there'⟩ := slotOf?_eq_some_word.mp hh
    rw [UInt64.lt_iff_toNat_lt, UInt64.lt_iff_toNat_lt]
    omega

/-! ## Reading and writing -/

theorem Stack.toNat_slot_lt (small : s.depth < 2 ^ 63) {level slot : UInt64}
    (h : s.wordSlot? level = some slot) : slot.toNat < s.frames.size := by
  have inside := UInt64.lt_iff_toNat_lt.mp (s.pairsOff.inside level slot h)
  rwa [toNat_wordSize small] at inside

theorem Stack.frameInWords_eq (small : s.depth < 2 ^ 63) (level : UInt64) :
    s.frameInWords level = .ok (s.frame? level.toNat) := by
  unfold frameInWords frame?
  rw [← toNat_wordSlot? small]
  cases h : s.wordSlot? level with
  | none => rfl
  | some slot =>
      have inside := toNat_slot_lt small h
      have here : fetch s.frames slot = .ok s.frames[slot.toNat] := dif_pos inside
      simp [here, inside, Except.map]

theorem Stack.setInWords_eq (small : s.depth < 2 ^ 63) (level : UInt64) (frame : φ) :
    s.setInWords level frame = .ok (s.set? level.toNat frame) := by
  unfold setInWords set?
  rw [← toNat_wordSlot? small]
  cases h : s.wordSlot? level with
  | none => rfl
  | some slot =>
      have inside := toNat_slot_lt small h
      have old : fetch s.frames slot = .ok s.frames[slot.toNat] := dif_pos inside
      have written : overwrite s.frames slot frame = .ok (s.frames.set slot.toNat frame) :=
        dif_pos inside
      simp [old, written, inside, bind, Except.bind, pure, Except.pure, Array.setIfInBounds]

theorem Stack.callersInWords_eq (small : s.depth < 2 ^ 63) :
    s.callersInWords = .ok s.callers := by
  have stop : (subOrZero s.wordSize 1).toNat = s.depth - 1 := by
    rw [toNat_subOrZero, toNat_wordSize small]
    rfl
  have inside : s.depth - 1 ≤ s.frames.size := Nat.sub_le _ _
  unfold callersInWords slice
  rw [stop, if_pos inside]
  rfl

/-- What a stack computes in words is never stopped, and is what it computes in numbers. -/
structure Stack.SoundInWords (s : Stack φ) : Prop where
  size : s.wordSize.toNat = s.depth
  slots : s.PairsOff
  slot : ∀ level, (s.wordSlot? level).map UInt64.toNat = s.slot? level.toNat
  frame : ∀ level, s.frameInWords level = .ok (s.frame? level.toNat)
  set : ∀ level frame, s.setInWords level frame = .ok (s.set? level.toNat frame)
  callers : s.callersInWords = .ok s.callers

theorem Stack.soundInWords (small : s.depth < 2 ^ 63) : s.SoundInWords where
  size := toNat_wordSize small
  slots := s.pairsOff
  slot := toNat_wordSlot? small
  frame := frameInWords_eq small
  set := setInWords_eq small
  callers := callersInWords_eq small

/-! ## Leaving a guard -/

variable {guard : Guard φ}

theorem Guard.toNat_wordDepth (recorded : guard.entryDepth < 2 ^ 63) :
    guard.wordDepth.toNat = guard.entryDepth :=
  UInt64.toNat_ofNat_of_lt' (Nat.lt_trans recorded (by decide))

/-- The sum that nothing checks fits. -/
theorem Guard.expected_fits (recorded : guard.entryDepth < 2 ^ 63) :
    ∃ expected, addInWords guard.wordDepth 1 = .ok expected ∧
      expected.toNat = guard.entryDepth + 1 := by
  have depth := toNat_wordDepth recorded
  have one : (1 : UInt64).toNat = 1 := rfl
  have fits : guard.wordDepth.toNat + (1 : UInt64).toNat < 2 ^ 64 := by omega
  refine ⟨guard.wordDepth + 1, if_pos fits, ?_⟩
  rw [UInt64.toNat_add, Nat.mod_eq_of_lt fits, depth, one]

end

variable {φ : Type} [Sentinel φ] [DecidableEq φ] {guard : Guard φ}

theorem Machine.releaseInWords_eq {left : Stack φ} (small : left.depth < 2 ^ 63)
    (recorded : guard.entryDepth < 2 ^ 63) :
    releaseInWords left guard = .ok (release left guard) := by
  obtain ⟨expected, sum, value⟩ := Guard.expected_fits recorded
  have size : left.wordSize.toNat = left.depth := Stack.toNat_wordSize small
  have cutSize : (left.truncate guard.entryDepth).wordSize.toNat
      = (left.truncate guard.entryDepth).depth := by
    refine Stack.toNat_wordSize ?_
    rw [Stack.depth_truncate]
    omega
  have same : left.wordSize = expected ↔ left.depth = guard.entryDepth + 1 := by
    rw [← UInt64.toNat_inj, size, value]
  unfold releaseInWords release
  rw [sum, Guard.toNat_wordDepth recorded]
  dsimp only [bind, Except.bind, pure, Except.pure]
  rw [size, cutSize, value]
  by_cases balanced : left.depth = guard.entryDepth + 1
  · rw [if_pos balanced, if_pos (same.mpr balanced)]
  · rw [if_neg balanced, if_neg (fun h => balanced (same.mp h))]

/-- A recorded depth that no array can have would stop the exit. -/
example : Machine.releaseInWords (.empty : Stack Frame)
    { frame := .numbered 0, entryDepth := 2 ^ 64 - 1, manner := .hidden } = .error .overflow := rfl

/-- Nothing that can be followed tells of a pop that failed. -/
theorem Follows.notMem_guardPopFailed {first last : Int} {events : List Event}
    (h : Follows first events last) (fault : Fault) : .guardPopFailed fault ∉ events := by
  intro told
  obtain ⟨seen, rest, split⟩ := List.append_of_mem told
  rw [split] at h
  exact h.at_event.2.2

/-- What a guard computes in words is never stopped, and is what it computes in numbers, whatever
stack its body leaves behind. -/
structure Guard.SoundInWords (guard : Guard φ) : Prop where
  recorded : guard.wordDepth.toNat = guard.entryDepth
  /-- The depth that it expects to find is a word. -/
  expected : ∃ expected, addInWords guard.wordDepth 1 = .ok expected ∧
    expected.toNat = guard.entryDepth + 1
  /-- Where it finds this depth there is a frame to pop, -/
  popped : ∀ left : Stack φ, left.depth < 2 ^ 63 →
    addInWords guard.wordDepth 1 = .ok left.wordSize → ∃ frame rest, left.pop? = some (frame, rest)
  released : ∀ left : Stack φ, left.depth < 2 ^ 63 →
    Machine.releaseInWords left guard = .ok (Machine.release left guard)
  /-- and it never tells of a pop that failed. -/
  quiet : ∀ (left : Stack φ) fault, .guardPopFailed fault ∉ (Machine.release left guard).2.events

theorem Guard.soundInWords (recorded : guard.entryDepth < 2 ^ 63) : guard.SoundInWords where
  recorded := toNat_wordDepth recorded
  expected := expected_fits recorded
  popped := by
    intro left small found
    obtain ⟨expected, sum, value⟩ := expected_fits recorded
    rw [sum] at found
    cases found
    obtain ⟨frame, rest, popped, -⟩ :=
      Stack.pop?_of_depth ((Stack.toNat_wordSize small).symm.trans value)
    exact ⟨frame, rest, popped⟩
  released := fun _ small => Machine.releaseInWords_eq small recorded
  quiet := fun left => (Machine.release_follows left guard).notMem_guardPopFailed

/-! ## Everything that is reached -/

/-- **What a guard recorded was the depth at the time,** so it is below any bound that the depth has
kept below. -/
theorem Happened.entryDepth_lt {start : Machine φ} {bound : Nat}
    (recorded : ∀ guard ∈ start.guards, guard.entryDepth < bound) {past : List (Record φ)}
    (h : Happened start past)
    (below : ∀ earlier, earlier <:+ past → (now start earlier).stack.depth < bound) :
    ∀ guard ∈ (now start past).guards, guard.entryDepth < bound := by
  induction h with
  | nil => exact recorded
  | @move past mv _ ih =>
      have before := ih (fun earlier he => below earlier (he.trans (List.suffix_cons _ _)))
      intro guard live
      cases mv with
      | call c => exact before guard live
      | enter manner frame =>
          change guard ∈ ((now start past).enter manner frame).machine.guards at live
          rcases (now start past).enter_cases manner frame with ⟨-, hm⟩ | ⟨-, hm⟩
          · rw [hm] at live
            exact before guard live
          · rw [hm] at live
            rcases List.mem_cons.mp live with new | old
            · -- the depth that the entry met is one of those that kept below the bound
              rw [new]
              exact below past (List.suffix_cons _ _)
            · exact before guard old
      | leave =>
          change guard ∈ (now start past).leave.machine.guards at live
          rw [Machine.guards_leave] at live
          exact before guard (List.mem_of_mem_tail live)
      | forget =>
          change guard ∈ (now start past).forget.machine.guards at live
          rw [Machine.guards_forget] at live
          exact before guard (List.mem_of_mem_tail live)

/-- No move tells of a pop that failed. -/
theorem Machine.notMem_guardPopFailed (m : Machine φ) (mv : Move φ) (fault : Fault) :
    .guardPopFailed fault ∉ (m.step mv).effect.events := by
  by_cases whole : ∃ next, mv = .call (.replace next)
  · -- no counter can follow this move, but it logs nothing
    obtain ⟨next, replaced⟩ := whole
    rw [replaced]
    exact List.not_mem_nil
  · have follows := m.step_follows (fun next replaced => whole ⟨next, replaced⟩)
    exact follows.notMem_guardPopFailed fault

theorem Happened.notMem_guardPopFailed {start : Machine φ} {past : List (Record φ)}
    (h : Happened start past) (fault : Fault) : .guardPopFailed fault ∉ log past := by
  intro told
  obtain ⟨record, hr, told⟩ := List.mem_flatMap.mp told
  obtain ⟨earlier, -, here⟩ := h.of_mem (List.mem_reverse.mp hr)
  rw [here] at told
  exact (now start earlier).notMem_guardPopFailed record.move fault told

/-- **Machine words are enough.** Take any program, with bodies that may do anything to the stack,
and any point of its run up to which the stack was never 2 ^ 63 frames deep. Whatever is asked of
the stack there, for any level that is a word, is computed in words without a trap and comes out
as in numbers. So is the exit from every guard that is live there, whatever its body still makes of
the stack: the sum fits, and where a frame is to be popped there is one. That a guard could not pop
its frame is therefore not in the log of any run. -/
theorem sound_in_words (start : Machine φ) (p : Program (Act φ) (Block φ))
    (recorded : ∀ guard ∈ start.guards, guard.entryDepth < 2 ^ 63) :
    (∀ past, past <:+ (start.run p).1.history →
      (∀ earlier, earlier <:+ past → (now start earlier).stack.depth < 2 ^ 63) →
        (now start past).stack.SoundInWords ∧
        ∀ guard ∈ (now start past).guards, guard.SoundInWords) ∧
    ∀ fault, .guardPopFailed fault ∉ log (start.run p).1.history := by
  obtain ⟨happened, -, -⟩ := run_keeps_history start p
  refine ⟨?_, happened.notMem_guardPopFailed⟩
  intro past reached small
  have entered := (happened.of_suffix reached).entryDepth_lt recorded small
  refine ⟨Stack.soundInWords (small past (List.suffix_refl _)), ?_⟩
  intro guard live
  exact Guard.soundInWords (entered guard live)

/-- A body that puts another stack in the place of its own, and enters a frame there whose body
takes everything away. -/
def displaced : Program (Act Frame) (Block Frame) :=
  .block (.enter (.numbered 1) true false)
    (.act (.call (.replace (.ofList {} [.numbered 5, .numbered 4, .numbered 3]))) <|
      .block (.enterHidden (.numbered 2) false) (.act (.call .clear) .done) <|
      .act (.call (.push (.numbered 6))) <|
      .act (.call (.push (.numbered 7))) .done)
    .done

/-- Nothing is left on the stack while both guards are live. Neither exit is stopped by that, and
the outer guard pops a frame that it never saw. -/
theorem sound_in_words_when_displaced :
    let start : Machine Frame := { stack := .ofList {} [.numbered 0] }
    let history := (start.run displaced).1.history
    let past := history.drop 4
    let here := now start past
    (∀ guard ∈ start.guards, guard.entryDepth < 2 ^ 63) ∧ past <:+ history ∧
      (∀ earlier, earlier <:+ past → (now start earlier).stack.depth < 2 ^ 63) ∧
      here.guards.map Guard.entryDepth = [3, 1] ∧ here.stack.depth = 0 ∧
      (∀ guard ∈ here.guards,
        Machine.releaseInWords here.stack guard = .ok (Machine.release here.stack guard)) ∧
      here.stack.callersInWords = .ok here.stack.callers ∧
      log history = [.pushed 2, .pushed 4, .cleared, .unbalanced 0 4, .truncated 0, .pushed 1,
        .pushed 2, .popped 1] := by
  intro start history past here
  have recorded : ∀ guard ∈ start.guards, guard.entryDepth < 2 ^ 63 := nofun
  have reached : past <:+ history := List.drop_suffix 4 history
  have bounded : ∀ earlier ∈ past.tails, (now start earlier).stack.depth < 2 ^ 63 := by decide
  have small : ∀ earlier, earlier <:+ past → (now start earlier).stack.depth < 2 ^ 63 :=
    fun earlier he => bounded earlier ((List.mem_tails earlier past).mpr he)
  obtain ⟨stack, guards⟩ := (sound_in_words start displaced recorded).1 past reached small
  refine ⟨recorded, reached, small, by decide, by decide, ?_, stack.callers, by decide⟩
  intro guard live
  exact (guards guard live).released here.stack (small past (List.suffix_refl _))

end CallPath
