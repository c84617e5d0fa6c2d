import CallPath.Stack.Basic

/-!
# Walking a stack from both ends

A cursor is a window on the slots of a stack: what lies between `lo` and `hi` is
still to come. Slots count from the bottom, so `takeTop` takes the window's last slot
and `takeBottom` its first. Both ends only ever move towards each
other; that they never cross is part of the type.

Skipping does not step: `skipTop` and `skipBottom` move an end by any distance at
once, and a cursor that is asked to skip more than it has left is exhausted.
-/

namespace CallPath

/-- The slots of a stack that are still to be visited. -/
structure Cursor (φ : Type) where
  frames : Array φ
  /-- The first slot of the window. -/
  lo : Nat
  /-- One past the last slot of the window. -/
  hi : Nat
  lo_le_hi : lo ≤ hi := by omega
  hi_le_size : hi ≤ frames.size := by omega

/-- Every frame of the stack, from the top down. -/
def Stack.cursor {φ : Type} (s : Stack φ) : Cursor φ :=
  { frames := s.frames, lo := 0, hi := s.frames.size }

namespace Cursor

variable {φ : Type}

/-- The frames still to come, topmost first. -/
def remaining (it : Cursor φ) : List φ := (it.frames.extract it.lo it.hi).toList.reverse

def length (it : Cursor φ) : Nat := it.hi - it.lo

def dropTo (it : Cursor φ) (hi : Nat) (above : it.lo ≤ hi) (below : hi ≤ it.hi) : Cursor φ :=
  { frames := it.frames, lo := it.lo, hi, hi_le_size := Nat.le_trans below it.hi_le_size }

def raiseTo (it : Cursor φ) (lo : Nat) (below : lo ≤ it.hi) : Cursor φ :=
  { frames := it.frames, lo, hi := it.hi, hi_le_size := it.hi_le_size }

/-- Skips `k` frames from the top and takes the one below them. -/
def skipTop (it : Cursor φ) (k : Nat) : Option φ × Cursor φ :=
  have bound := it.hi_le_size
  if h : k < it.hi - it.lo then
    (some it.frames[it.hi - 1 - k], it.dropTo (it.hi - 1 - k) (by omega) (by omega))
  else
    (none, it.dropTo it.lo (Nat.le_refl _) it.lo_le_hi)

/-- Skips `k` frames from the bottom and takes the one above them. -/
def skipBottom (it : Cursor φ) (k : Nat) : Option φ × Cursor φ :=
  have bound := it.hi_le_size
  if h : k < it.hi - it.lo then
    (some it.frames[it.lo + k], it.raiseTo (it.lo + k + 1) (by omega))
  else
    (none, it.raiseTo it.hi (Nat.le_refl _))

def takeTop (it : Cursor φ) : Option φ × Cursor φ :=
  have bound := it.hi_le_size
  if h : it.lo < it.hi then
    (some it.frames[it.hi - 1], it.dropTo (it.hi - 1) (by omega) (by omega))
  else
    (none, it)

def takeBottom (it : Cursor φ) : Option φ × Cursor φ :=
  have bound := it.hi_le_size
  if h : it.lo < it.hi then
    (some it.frames[it.lo], it.raiseTo (it.lo + 1) (by omega))
  else
    (none, it)

end Cursor

/-! ## Cursor calls as data -/

/-- One call on a cursor. Those from `rest` on work on a clone. -/
inductive CursorCall where
  | takeTop
  | takeBottom
  | length
  | bounds
  | skipTop (k : Nat)
  | skipBottom (k : Nat)
  /-- All that is still to come, from the top down. -/
  | rest
  /-- All that is still to come, from the bottom up. -/
  | restReversed
  | bottom
  | count
  /-- The frames still to come as they are stored. -/
  | inspect
  deriving DecidableEq

inductive CursorAnswer (φ : Type) where
  | frame (frame : Option φ)
  | number (n : Nat)
  | bounds (lower upper : Nat)
  | frames (frames : List φ)
  /-- Frames in slot order, shown as the cursor's state. -/
  | stored (frames : List φ)
  deriving DecidableEq

namespace Cursor

variable {φ : Type}

def call (it : Cursor φ) : CursorCall → CursorAnswer φ × Cursor φ
  | .takeTop => (.frame it.takeTop.1, it.takeTop.2)
  | .takeBottom => (.frame it.takeBottom.1, it.takeBottom.2)
  | .length => (.number it.length, it)
  | .bounds => (.bounds it.length it.length, it)
  | .skipTop k => (.frame (it.skipTop k).1, (it.skipTop k).2)
  | .skipBottom k => (.frame (it.skipBottom k).1, (it.skipBottom k).2)
  | .rest => (.frames it.remaining, it)
  | .restReversed => (.frames it.remaining.reverse, it)
  | .bottom => (.frame it.remaining.getLast?, it)
  | .count => (.number it.remaining.length, it)
  | .inspect => (.stored it.remaining.reverse, it)

def run (it : Cursor φ) : List CursorCall → List (CursorAnswer φ)
  | [] => []
  | c :: cs => (it.call c).1 :: (it.call c).2.run cs

/-! ## What each step does to the frames still to come -/

theorem length_remaining (it : Cursor φ) : it.remaining.length = it.length := by
  have := it.hi_le_size
  simp only [remaining, length, List.length_reverse, Array.length_toList, Array.size_extract]
  omega

theorem remaining_cursor (s : Stack φ) : s.cursor.remaining = s.toList := by
  simp [remaining, Stack.cursor, Stack.toList]

/-- Entry `i` of what is to come is `i` slots below the upper end of the window. -/
theorem getElem?_remaining (it : Cursor φ) (i : Nat) :
    it.remaining[i]? = if i < it.hi - it.lo then it.frames[it.hi - 1 - i]? else none := by
  have hlen := it.length_remaining
  unfold length at hlen
  by_cases h : i < it.hi - it.lo
  · have := it.hi_le_size
    rw [if_pos h]
    unfold remaining
    rw [List.getElem?_reverse (by simp; omega)]
    rw [Array.getElem?_toList, Array.getElem?_extract, if_pos (by simp; omega)]
    congr 1
    simp
    omega
  · rw [if_neg h, List.getElem?_eq_none (by omega)]

theorem remaining_dropTo (it : Cursor φ) (hi : Nat) (above : it.lo ≤ hi) (below : hi ≤ it.hi) :
    (it.dropTo hi above below).remaining = it.remaining.drop (it.hi - hi) := by
  refine List.ext_getElem? (fun i => ?_)
  rw [List.getElem?_drop, getElem?_remaining, getElem?_remaining]
  show (if i < hi - it.lo then it.frames[hi - 1 - i]? else none) = _
  by_cases h : i < hi - it.lo
  · rw [if_pos h, if_pos (by omega)]
    congr 1
    omega
  · rw [if_neg h, if_neg (by omega)]

theorem remaining_raiseTo (it : Cursor φ) (lo : Nat) (above : it.lo ≤ lo) (below : lo ≤ it.hi) :
    (it.raiseTo lo below).remaining = it.remaining.take (it.hi - lo) := by
  refine List.ext_getElem? (fun i => ?_)
  rw [List.getElem?_take, getElem?_remaining, getElem?_remaining]
  show (if i < it.hi - lo then it.frames[it.hi - 1 - i]? else none) = _
  by_cases h : i < it.hi - lo
  · rw [if_pos h, if_pos h, if_pos (by omega)]
  · rw [if_neg h, if_neg h]

/-- A skip from the top takes entry `k` of what is to come and leaves what follows it. -/
theorem skipTop_eq (it : Cursor φ) (k : Nat) :
    (it.skipTop k).1 = it.remaining[k]? ∧ (it.skipTop k).2.remaining = it.remaining.drop (k + 1) := by
  have bound := it.hi_le_size
  have hlen := it.length_remaining
  unfold length at hlen
  unfold skipTop
  split
  · rename_i h
    rw [remaining_dropTo, getElem?_remaining, if_pos h, Array.getElem?_eq_getElem (by omega)]
    refine ⟨rfl, ?_⟩
    congr 1
    omega
  · rename_i h
    rw [remaining_dropTo, getElem?_remaining, if_neg h, List.drop_of_length_le (by omega),
      List.drop_of_length_le (by omega)]
    exact ⟨rfl, rfl⟩

/-- A skip from the bottom takes entry `k` from the end and leaves what comes before it. -/
theorem skipBottom_eq (it : Cursor φ) (k : Nat) :
    (it.skipBottom k).1 = it.remaining.reverse[k]? ∧
      (it.skipBottom k).2.remaining = it.remaining.take (it.length - (k + 1)) := by
  have bound := it.hi_le_size
  have hlen := it.length_remaining
  unfold length at hlen ⊢
  unfold skipBottom
  split
  · rename_i h
    rw [remaining_raiseTo it _ (by omega), List.getElem?_reverse (by omega), getElem?_remaining,
      if_pos (by omega), hlen,
      show it.hi - 1 - (it.hi - it.lo - 1 - k) = it.lo + k by omega,
      Array.getElem?_eq_getElem (by omega)]
    refine ⟨rfl, ?_⟩
    congr 1
    omega
  · rename_i h
    rw [remaining_raiseTo it _ it.lo_le_hi, List.getElem?_eq_none (by simp; omega)]
    refine ⟨rfl, ?_⟩
    congr 1
    omega

/-- Taking the top is a skip of none. -/
theorem takeTop_eq_skipTop (it : Cursor φ) : it.takeTop.1 = (it.skipTop 0).1 ∧
    it.takeTop.2.remaining = (it.skipTop 0).2.remaining := by
  rw [(skipTop_eq it 0).1, (skipTop_eq it 0).2]
  have bound := it.hi_le_size
  have hlen := it.length_remaining
  unfold length at hlen
  unfold takeTop
  split
  · rename_i h
    rw [remaining_dropTo, getElem?_remaining, if_pos (by omega),
      Array.getElem?_eq_getElem (by omega)]
    refine ⟨rfl, ?_⟩
    congr 1
    omega
  · rename_i h
    rw [List.eq_nil_of_length_eq_zero (by omega : it.remaining.length = 0)]
    exact ⟨rfl, rfl⟩

/-- Taking the bottom is a skip of none. -/
theorem takeBottom_eq_skipBottom (it : Cursor φ) : it.takeBottom.1 = (it.skipBottom 0).1 ∧
    it.takeBottom.2.remaining = (it.skipBottom 0).2.remaining := by
  rw [(skipBottom_eq it 0).1, (skipBottom_eq it 0).2]
  have bound := it.hi_le_size
  have hlen := it.length_remaining
  unfold length at hlen
  unfold takeBottom length
  split
  · rename_i h
    rw [remaining_raiseTo it _ (by omega), List.getElem?_reverse (by omega), getElem?_remaining,
      if_pos (by omega), hlen, show it.hi - 1 - (it.hi - it.lo - 1 - 0) = it.lo by omega,
      Array.getElem?_eq_getElem (by omega)]
    exact ⟨rfl, rfl⟩
  · rename_i h
    rw [List.eq_nil_of_length_eq_zero (by omega : it.remaining.length = 0), List.take_nil]
    exact ⟨rfl, rfl⟩

end Cursor

end CallPath
