import CallPath.Stack.Basic

/-!
# Walking the caller chain

Who called me, and who called that: reading level after level until native code
answers. The walk needs no bound of its own. Below the bottom every read yields
the sentinel, so a level that does not is a level on the stack, and there are only
so many of those.
-/

namespace CallPath.Stack

variable {φ : Type} [Sentinel φ]

/-- A level that is not native code is on the stack. -/
theorem lt_depth_of_get_ne {s : Stack φ} {level : Nat} (h : s.get level ≠ Sentinel.native) :
    level < s.depth := by
  refine Nat.lt_of_not_le (fun hle => h ?_)
  rw [get, frame?_eq_none.mpr hle]
  rfl

variable [DecidableEq φ]

/-- The frames read from level `level` on, up to the first that is native code. -/
def walkFrom (s : Stack φ) (level : Nat) : List φ :=
  if h : s.isNative (s.get level) then []
  else
    have := lt_depth_of_get_ne (by simpa [isNative] using h)
    s.get level :: s.walkFrom (level + 1)
termination_by s.depth - level

/-- The script frames above the first native one, topmost first. -/
def walk (s : Stack φ) : List φ := s.walkFrom 0

end CallPath.Stack
