/-!
# Why a call is refused

A stack refuses a call for one of three reasons, and its callers care which. Two
of them mean that the interpreter lost track of its own pushes and pops; the
third is a script that calls too deeply, and is nobody's mistake but the
script's. `Fault.isInternal` draws that line.

The wording lives in `Fault.message` alone.
-/

namespace CallPath

/-- Why a stack refused a call. -/
inductive Fault where
  /-- `call` needs a top frame and there is none. -/
  | emptyStack (call : String)
  /-- Level `index` was to be replaced on a stack of `depth` frames. -/
  | outOfBounds (index depth : Nat)
  /-- Entering one more frame would go past `limit`. -/
  | recursionLimit (limit : Nat)
  deriving DecidableEq

namespace Fault

/-- Whether the fault shows that pushes and pops got out of step. -/
def isInternal : Fault → Bool
  | emptyStack _ => true
  | outOfBounds _ _ => true
  | recursionLimit _ => false

/-- The sentence that reports the fault. -/
def message : Fault → String
  | emptyStack call => call ++ " on empty call stack"
  | outOfBounds index depth =>
      "Index out of bounds " ++ toString index ++ ", call stack depth is " ++ toString depth
  | recursionLimit limit => "Maximum recursion depth exceeded \"" ++ toString limit ++ "\""

end Fault

end CallPath
