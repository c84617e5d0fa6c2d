import CallPath.Fault

/-!
# Programs and how they end

A program is a sequence of acts, blocks and loops. An act runs and is over. A block
opens something, runs its body and closes what it opened, in whatever way the body
ended: returning, giving up with an error, or panicking. A body that did not return
skips everything up to a block that says otherwise.

What acts and blocks mean is left to a `Host`; how control flows is said once, here.
Two hosts share it: one runs the calls of a single machine and records every move,
the other runs whole sessions with named stacks.
-/

namespace CallPath

/-- Why a program gave up early. -/
inductive Cause where
  | message (text : String)
  /-- A call was refused, and the program passed that on. -/
  | refusal (fault : Fault)
  deriving DecidableEq

/-- The sentence that reports a cause. -/
def Cause.text : Cause → String
  | .message t => t
  | .refusal fault => fault.message

/-- How a program ends. -/
inductive Outcome where
  | returned
  | failed (cause : Cause)
  | panicked (message : String)
  /-- A panic that the program did not ask for. -/
  | crashed
  deriving DecidableEq

/-- A sequence of acts, blocks and loops. -/
inductive Program (α β : Type) where
  | done
  | act (a : α) (rest : Program α β)
  | block (b : β) (body rest : Program α β)
  | loop (n : Nat) (body rest : Program α β)
  deriving Inhabited

/-- What opening a block comes to. -/
inductive Opening (σ : Type) where
  /-- The body is to run. -/
  | opened (state : σ)
  /-- The body is skipped, and the block is over. -/
  | skipped (state : σ) (outcome : Outcome)

/-- The meaning of acts and blocks, on states of type `σ`. -/
structure Host (α β σ : Type) where
  act : α → σ → σ × Outcome
  enter : β → σ → Opening σ
  /-- Closes a block whose body has ended. -/
  leave : β → Outcome → σ → σ × Outcome

/-- Goes on only after a return. -/
def andThen {σ : Type} (r : σ × Outcome) (k : σ → σ × Outcome) : σ × Outcome :=
  match r with
  | (s, .returned) => k s
  | (s, o) => (s, o)

/-- Runs a body `n` times, until it ends otherwise than by returning. -/
def repeatWhileReturned {σ : Type} (body : σ → σ × Outcome) : Nat → σ → σ × Outcome
  | 0, s => (s, .returned)
  | n + 1, s => andThen (body s) (repeatWhileReturned body n)

namespace Program

variable {α β σ : Type}

def run (host : Host α β σ) : Program α β → σ → σ × Outcome
  | done, s => (s, .returned)
  | act a rest, s => andThen (host.act a s) (rest.run host)
  | block b body rest, s =>
      match host.enter b s with
      | .skipped s o => andThen (s, o) (rest.run host)
      | .opened s =>
          let ended := body.run host s
          andThen (host.leave b ended.2 ended.1) (rest.run host)
  | loop n body rest, s => andThen (repeatWhileReturned (body.run host) n s) (rest.run host)

end Program

end CallPath
