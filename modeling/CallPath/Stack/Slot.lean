/-!
# From levels to slots

Frames are stored bottom-first, so that pushing and popping touch the end of an
array; callers count from the top. Level `d` of a stack of `size` frames is slot
`size - 1 - d`, and the two subtractions must notice when there is nothing left
to take from: one step too far is the difference between "no such frame" and the
wrong caller's frame.

The arithmetic is stated for any carrier with an order and a subtraction, because
it is used in two: in the natural numbers, where subtraction stops at zero, and in
machine words, where it wraps. The check makes both agree.
-/

namespace CallPath

section

variable {α : Type} [LE α] [DecidableLE α] [Sub α]

/-- Subtraction, if there is enough to subtract from. -/
def checkedSub? (a b : α) : Option α := if b ≤ a then some (a - b) else none

/-- The slot of level `depth` among `size` frames, if the stack is that deep. -/
def slotOf? [OfNat α 1] (size depth : α) : Option α :=
  (checkedSub? size depth).bind (fun below => checkedSub? below 1)

end

/-- A level has a slot exactly when it is on the stack, and the slots run against
the levels. -/
theorem slotOf?_eq_some {size depth slot : Nat} :
    slotOf? size depth = some slot ↔ depth < size ∧ slot = size - 1 - depth := by
  unfold slotOf? checkedSub?
  by_cases h : depth ≤ size
  · rw [if_pos h, Option.bind_some]
    by_cases h1 : 1 ≤ size - depth
    · rw [if_pos h1, Option.some.injEq]
      omega
    · rw [if_neg h1]
      constructor
      · intro e
        cases e
      · omega
  · rw [if_neg h, Option.bind_none]
    constructor
    · intro e
      cases e
    · omega

theorem slotOf?_eq_none {size depth : Nat} : slotOf? size depth = none ↔ size ≤ depth := by
  cases h : slotOf? size depth with
  | none =>
      refine ⟨fun _ => Nat.le_of_not_lt (fun hlt => ?_), fun _ => rfl⟩
      rw [slotOf?_eq_some.mpr ⟨hlt, rfl⟩] at h
      cases h
  | some slot =>
      have := (slotOf?_eq_some.mp h).1
      constructor
      · intro e
        cases e
      · omega

/-! ## Slots in words -/

/-- Where there is enough to subtract from, words subtract as numbers do. -/
theorem toNat_checkedSub? (a b : UInt64) :
    (checkedSub? a b).map UInt64.toNat = checkedSub? a.toNat b.toNat := by
  unfold checkedSub?
  by_cases h : b ≤ a
  · have enough : b.toNat ≤ a.toNat := UInt64.le_iff_toNat_le.mp h
    rw [if_pos h, if_pos enough, Option.map_some, UInt64.toNat_sub_of_le a b h]
  · have short : ¬ b.toNat ≤ a.toNat := fun enough => h (UInt64.le_iff_toNat_le.mpr enough)
    rw [if_neg h, if_neg short, Option.map_none]

/-- A level has the same slot in words and in numbers, whatever the words. -/
theorem toNat_slotOf? (size level : UInt64) :
    (slotOf? size level).map UInt64.toNat = slotOf? size.toNat level.toNat := by
  unfold slotOf?
  rw [← toNat_checkedSub?]
  cases checkedSub? size level with
  | none => rfl
  | some below => exact toNat_checkedSub? below 1

theorem slotOf?_eq_some_word {size level slot : UInt64} :
    slotOf? size level = some slot ↔
      level.toNat < size.toNat ∧ slot.toNat = size.toNat - 1 - level.toNat := by
  rw [← slotOf?_eq_some, ← toNat_slotOf?]
  constructor
  · intro h
    rw [h]
    rfl
  · intro h
    obtain ⟨found, there, same⟩ := Option.map_eq_some_iff.mp h
    rw [there, UInt64.toNat_inj.mp same]

end CallPath
