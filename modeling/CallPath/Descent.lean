import CallPath.Machine

/-!
# Guarded recursion

A function that calls itself `n` times, entering a frame of its own each time and
handing a refusal back unchanged. Every frame that was entered is left on the way
back, so that what the innermost call saw is all that remains.
-/

namespace CallPath

/-- The end of a guarded recursion. -/
structure Descent (φ : Type) where
  /-- The depth that the innermost call saw, or the refusal that stopped it. -/
  result : Except Fault Nat
  /-- The machine after the way back. -/
  machine : Machine φ
  /-- What happened besides. -/
  effect : Effect φ := {}
  /-- How many frames were made to be entered, a refused one included. -/
  frames : Nat

/-- One effect after another. -/
def Effect.andThen {φ : Type} (a b : Effect φ) : Effect φ :=
  { events := a.events ++ b.events, cloned := a.cloned ++ b.cloned
    dropped := a.dropped ++ b.dropped }

/-- Enters frame `fresh i` and recurses `n` times more, with `fresh (i + 1)` and so
on. -/
def Machine.descend {φ : Type} [Sentinel φ] [DecidableEq φ] (fresh : Nat → φ) (i : Nat)
    (m : Machine φ) (n : Nat) : Descent φ :=
  let entry := m.enter .reachable (fresh i)
  match entry.answer.fault? with
  | some fault =>
      { result := .error fault, machine := entry.machine, effect := entry.effect, frames := 1 }
  | none =>
      let inner : Descent φ := match n with
        | 0 => { result := .ok entry.machine.stack.depth, machine := entry.machine, frames := 0 }
        | n + 1 => entry.machine.descend fresh (i + 1) n
      -- the guard is left whatever came back from inside
      let exit := inner.machine.leave
      { result := inner.result, machine := exit.machine
        effect := (entry.effect.andThen inner.effect).andThen exit.effect
        frames := inner.frames + 1 }

end CallPath
