/-!
# The limit on guarded entry

Runaway recursion is stopped where a frame is entered, not where it is pushed: a
plain push is never refused. A stack without a limit is one whose `max` is
absent.
-/

namespace CallPath

/-- How many frames may be on the stack before entry is refused. -/
structure Limit where
  /-- The number of frames at which entry stops; absent for no limit. -/
  max : Option Nat := some 32
  deriving DecidableEq

namespace Limit

/-- No limit at all. -/
def unbounded : Limit := { max := none }

/-- The limit that stands in the way of entering a frame at depth `depth`. -/
def refusal? (limit : Limit) (depth : Nat) : Option Nat :=
  limit.max.filter (fun max => max ≤ depth)

/-- A limit moved up by `n`, as it has to be when `n` frames are put below a stack. -/
def raise (limit : Limit) (n : Nat) : Limit := { max := limit.max.map (· + n) }

theorem refusal?_eq_none {limit : Limit} {depth : Nat} :
    limit.refusal? depth = none ↔ ∀ max, limit.max = some max → depth < max := by
  cases h : limit.max with
  | none => simp [refusal?, h]
  | some max => simp [refusal?, h, Option.filter]

theorem refusal?_eq_none_of_max {limit : Limit} {depth max : Nat} (h : limit.max = some max) :
    limit.refusal? depth = none ↔ depth < max := by
  rw [refusal?_eq_none, h]
  simp

theorem refusal?_eq_some {limit : Limit} {depth max : Nat} :
    limit.refusal? depth = some max ↔ limit.max = some max ∧ max ≤ depth := by
  cases h : limit.max with
  | none => simp [refusal?, h]
  | some m =>
      by_cases hm : m ≤ depth
      · simp only [refusal?, h, Option.filter, hm, decide_true, Option.some.injEq, if_true]
        constructor
        · rintro rfl
          exact ⟨rfl, hm⟩
        · exact fun e => e.1
      · simp only [refusal?, h, Option.filter, hm, decide_false, Option.some.injEq]
        constructor
        · intro e
          cases e
        · rintro ⟨rfl, hle⟩
          exact absurd hle hm

end Limit

end CallPath
