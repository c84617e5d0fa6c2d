import CallPath.Limit
import CallPath.Stack.Slot

/-!
# The call stack

A stack holds one frame for every call in progress. Level 0, the top, is the
frame being evaluated now; level 1 is its caller, and so on down. A frame is
opaque: the stack compares frames with the native-code sentinel and does nothing
else with them.

Reading and writing past the bottom differ on purpose. Reading by level always
answers, with the sentinel where no script frame is left, so a walk up the caller
chain ends at native code by itself. Writing by level is strict: a stack never
grows to make room for a write.

The view of a stack is `toList`, top-first. Every operation has one equation that
says what it does to the view, and nothing outside this file needs the array.
-/

namespace CallPath

/-- A kind of frame with a sentinel: the one frame that stands for a caller
outside every script. -/
class Sentinel (φ : Type) where
  native : φ

/-- The frames of the calls in progress, and the limit on entering more. -/
structure Stack (φ : Type) where
  /-- The frames, bottom-first. -/
  frames : Array φ := #[]
  limit : Limit := {}

namespace Stack

variable {φ : Type}

def empty (limit : Limit := {}) : Stack φ := { limit }

/-- A stack with the given frames, top-first. -/
def ofList (limit : Limit) (frames : List φ) : Stack φ :=
  { frames := frames.reverse.toArray, limit }

/-- The frames, top-first. -/
def toList (s : Stack φ) : List φ := s.frames.toList.reverse

def depth (s : Stack φ) : Nat := s.frames.size

def isEmpty (s : Stack φ) : Bool := s.frames.isEmpty

def slot? (s : Stack φ) (level : Nat) : Option Nat := slotOf? s.frames.size level

/-- The frame at level `level`, if the stack is that deep. -/
def frame? (s : Stack φ) (level : Nat) : Option φ :=
  (s.slot? level).bind (fun slot => s.frames[slot]?)

/-- The frame at level `level`, with native code below the bottom. -/
def get [Sentinel φ] (s : Stack φ) (level : Nat) : φ := (s.frame? level).getD Sentinel.native

/-- Whether a frame is the sentinel; a script frame of the same name is not. -/
def isNative [Sentinel φ] [DecidableEq φ] (_ : Stack φ) (frame : φ) : Bool :=
  frame = Sentinel.native

/-- The frame being evaluated now. -/
def top [Sentinel φ] (s : Stack φ) : φ := s.get 0

/-- Puts a frame on top. No limit applies here. -/
def push (s : Stack φ) (frame : φ) : Stack φ := { s with frames := s.frames.push frame }

def pop? (s : Stack φ) : Option (φ × Stack φ) :=
  s.frames.back?.map (fun frame => (frame, { s with frames := s.frames.pop }))

/-- Replaces the frame at level `level` and tells which frame was there. -/
def set? (s : Stack φ) (level : Nat) (frame : φ) : Option (φ × Stack φ) :=
  (s.slot? level).bind (fun slot =>
    s.frames[slot]?.map (fun old => (old, { s with frames := s.frames.setIfInBounds slot frame })))

/-- Replaces the top and tells which frame was there. -/
def swap? (s : Stack φ) (frame : φ) : Option (φ × Stack φ) :=
  s.frames.back?.map
    (fun old => (old, { s with frames := s.frames.setIfInBounds (s.frames.size - 1) frame }))

def clear (s : Stack φ) : Stack φ := { s with frames := #[] }

/-- Removes frames from the top until at most `depth` are left. -/
def truncate (s : Stack φ) (depth : Nat) : Stack φ := { s with frames := s.frames.take depth }

/-- The frames that `truncate` removes, topmost first. -/
def beyond (s : Stack φ) (depth : Nat) : List φ := s.toList.take (s.depth - depth)

/-- The stack of the callers: everything below the top. -/
def callers (s : Stack φ) : Stack φ := { s with frames := s.frames.take (s.depth - 1) }

/-! ## What each operation does to the view -/

theorem toList_ofList (limit : Limit) (l : List φ) : (ofList limit l).toList = l := by
  simp [toList, ofList]

theorem ofList_toList (s : Stack φ) : ofList s.limit s.toList = s := by
  simp [toList, ofList]

theorem ext_toList {s t : Stack φ} (frames : s.toList = t.toList) (limit : s.limit = t.limit) :
    s = t := by
  rw [← ofList_toList s, ← ofList_toList t, frames, limit]

theorem length_toList (s : Stack φ) : s.toList.length = s.depth := by
  simp [toList, depth]

theorem isEmpty_eq (s : Stack φ) : s.isEmpty = s.toList.isEmpty := by
  obtain ⟨⟨l⟩, limit⟩ := s
  cases l <;> simp [isEmpty, toList]

theorem toList_push (s : Stack φ) (frame : φ) : (s.push frame).toList = frame :: s.toList := by
  simp [toList, push]

theorem toList_clear (s : Stack φ) : s.clear.toList = [] := rfl

/-- Level `level` of the stack is entry `level` of the view. -/
theorem frame?_eq (s : Stack φ) (level : Nat) : s.frame? level = s.toList[level]? := by
  unfold frame? slot? toList
  cases h : slotOf? s.frames.size level with
  | none =>
      have := slotOf?_eq_none.mp h
      rw [Option.bind_none, List.getElem?_eq_none]
      simpa using this
  | some slot =>
      obtain ⟨hlt, rfl⟩ := slotOf?_eq_some.mp h
      rw [Option.bind_some, List.getElem?_reverse (by simpa using hlt)]
      simp

theorem frame?_eq_none {s : Stack φ} {level : Nat} : s.frame? level = none ↔ s.depth ≤ level := by
  rw [frame?_eq, List.getElem?_eq_none_iff, length_toList]

/-- A pop takes the head off the view. -/
theorem pop?_eq (s : Stack φ) :
    s.pop? = s.toList.head?.map (fun frame => (frame, ofList s.limit s.toList.tail)) := by
  obtain ⟨⟨l⟩, limit⟩ := s
  simp [pop?, toList, ofList]

/-- A strict write changes one entry of the view. -/
theorem set?_eq (s : Stack φ) (level : Nat) (frame : φ) :
    s.set? level frame =
      (s.toList[level]?).map (fun old => (old, ofList s.limit (s.toList.set level frame))) := by
  rw [← frame?_eq]
  unfold set? frame?
  cases h : s.slot? level with
  | none => rfl
  | some slot =>
      obtain ⟨hlt, rfl⟩ := slotOf?_eq_some.mp h
      rw [Option.bind_some, Option.bind_some]
      congr 1
      funext old
      congr 1
      refine ext_toList ?_ rfl
      rw [toList_ofList]
      obtain ⟨⟨l⟩, limit⟩ := s
      refine List.ext_getElem? (fun i => ?_)
      simp only [toList, Array.toList_setIfInBounds, List.getElem?_set, List.length_reverse]
      simp only [List.size_toArray] at hlt ⊢
      by_cases hi : i < l.length
      · rw [List.getElem?_reverse (by simpa using hi), List.getElem?_reverse hi,
          List.getElem?_set, List.length_set]
        by_cases hil : level = i
        · subst hil
          simp [hlt]
          omega
        · rw [if_neg hil, if_neg (by omega)]
      · rw [List.getElem?_eq_none (by simpa using hi), List.getElem?_eq_none (by simpa using hi),
          if_neg (by omega)]

/-- A swap is a strict write at level 0. -/
theorem swap?_eq (s : Stack φ) (frame : φ) : s.swap? frame = s.set? 0 frame := by
  have hslot : s.slot? 0 = if 0 < s.frames.size then some (s.frames.size - 1) else none := by
    split
    · exact slotOf?_eq_some.mpr ⟨by assumption, rfl⟩
    · exact slotOf?_eq_none.mpr (by omega)
  unfold swap? set?
  rw [hslot, Array.back?]
  split
  · rfl
  · rw [Array.getElem?_eq_none (by omega)]
    rfl

theorem pop?_eq_none {s : Stack φ} : s.pop? = none ↔ s.toList = [] := by
  rw [pop?_eq, Option.map_eq_none_iff, List.head?_eq_none_iff]

theorem pop?_eq_some {s rest : Stack φ} {frame : φ} :
    s.pop? = some (frame, rest) ↔ s.toList = frame :: rest.toList ∧ rest.limit = s.limit := by
  rw [pop?_eq]
  cases hl : s.toList with
  | nil => simp
  | cons top below =>
      constructor
      · intro popped
        cases popped
        exact ⟨by rw [toList_ofList]; rfl, rfl⟩
      · rintro ⟨frames, limit⟩
        cases frames
        exact congrArg some (Prod.ext rfl (ext_toList (toList_ofList _ _) limit.symm))

theorem pop?_of_depth {s : Stack φ} {n : Nat} (h : s.depth = n + 1) :
    ∃ frame rest, s.pop? = some (frame, rest) ∧ rest.depth = n := by
  have hlen : s.toList.length = n + 1 := s.length_toList.trans h
  obtain ⟨frame, rest, hl⟩ := List.exists_cons_of_length_eq_add_one hlen
  refine ⟨frame, ofList s.limit rest, ?_, ?_⟩
  · rw [pop?_eq, hl]
    rfl
  · rw [← length_toList, toList_ofList]
    rw [hl] at hlen
    exact Nat.succ.inj hlen

theorem set?_eq_none {s : Stack φ} {level : Nat} {frame : φ} :
    s.set? level frame = none ↔ s.toList.length ≤ level := by
  rw [set?_eq, Option.map_eq_none_iff, List.getElem?_eq_none_iff]

theorem set?_eq_some {s next : Stack φ} {level : Nat} {frame old : φ} :
    s.set? level frame = some (old, next) ↔
      s.toList[level]? = some old ∧ next.toList = s.toList.set level frame ∧
        next.limit = s.limit := by
  rw [set?_eq]
  cases s.toList[level]? with
  | none => simp
  | some there =>
      constructor
      · intro written
        cases written
        exact ⟨rfl, toList_ofList _ _, rfl⟩
      · rintro ⟨same, frames, limit⟩
        cases same
        refine congrArg some (Prod.ext rfl (ext_toList ?_ limit.symm))
        rw [toList_ofList, frames]

theorem swap?_eq_some {s next : Stack φ} {frame old : φ} :
    s.swap? frame = some (old, next) ↔
      ∃ below, s.toList = old :: below ∧ next.toList = frame :: below ∧ next.limit = s.limit := by
  rw [swap?_eq, set?_eq_some]
  cases hl : s.toList with
  | nil => simp
  | cons top below =>
      constructor
      · rintro ⟨same, frames, limit⟩
        cases same
        exact ⟨below, rfl, frames, limit⟩
      · rintro ⟨rest, same, frames, limit⟩
        cases same
        exact ⟨rfl, frames, limit⟩

/-- A cut to `depth` frames keeps that many from the bottom. -/
theorem toList_truncate (s : Stack φ) (depth : Nat) :
    (s.truncate depth).toList = s.toList.drop (s.depth - depth) := by
  obtain ⟨⟨l⟩, limit⟩ := s
  simp [truncate, toList, Stack.depth, List.reverse_take]

theorem beyond_append_truncate (s : Stack φ) (depth : Nat) :
    s.beyond depth ++ (s.truncate depth).toList = s.toList := by
  rw [toList_truncate, beyond, List.take_append_drop]

theorem toList_callers (s : Stack φ) : s.callers.toList = s.toList.tail := by
  obtain ⟨⟨l⟩, limit⟩ := s
  simp [callers, toList, Stack.depth]

/-! ## How deep the stack is then -/

theorem depth_eq_zero_iff {s : Stack φ} : s.depth = 0 ↔ s.toList = [] := by
  rw [← length_toList, List.length_eq_zero_iff]

theorem depth_push (s : Stack φ) (frame : φ) : (s.push frame).depth = s.depth + 1 := by
  rw [← length_toList, toList_push, List.length_cons, length_toList]

theorem depth_of_pop? {s rest : Stack φ} {frame : φ} (popped : s.pop? = some (frame, rest)) :
    s.depth = rest.depth + 1 := by
  rw [← length_toList, (pop?_eq_some.mp popped).1, List.length_cons, length_toList]

theorem depth_of_set? {s next : Stack φ} {level : Nat} {frame old : φ}
    (written : s.set? level frame = some (old, next)) : next.depth = s.depth := by
  rw [← length_toList, (set?_eq_some.mp written).2.1, List.length_set, length_toList]

theorem depth_of_swap? {s next : Stack φ} {frame old : φ}
    (swapped : s.swap? frame = some (old, next)) : next.depth = s.depth :=
  depth_of_set? (swap?_eq s frame ▸ swapped)

theorem depth_truncate (s : Stack φ) (depth : Nat) :
    (s.truncate depth).depth = min s.depth depth := by
  rw [← length_toList, toList_truncate, List.length_drop, length_toList]
  omega

/-- A pop and a swap need a frame, -/
theorem pop?_eq_none_iff_depth {s : Stack φ} : s.pop? = none ↔ s.depth = 0 := by
  rw [pop?_eq_none, depth_eq_zero_iff]

theorem swap?_eq_none_iff_depth {s : Stack φ} {frame : φ} :
    s.swap? frame = none ↔ s.depth = 0 := by
  rw [swap?_eq, set?_eq_none, length_toList, Nat.le_zero]

/-- and a write needs one at its level. -/
theorem set?_eq_none_iff_depth {s : Stack φ} {level : Nat} {frame : φ} :
    s.set? level frame = none ↔ s.depth ≤ level := by
  rw [set?_eq_none, length_toList]

end Stack

end CallPath
