import CallPath.Machine

/-!
# Showing the state of things

A rendered stack is for the people who write scripts. The texts here are for those
who look after the interpreter: they show every field, and frames by a label that
tells two frames of one name apart. Frames appear in slot order, the bottom first.
-/

namespace CallPath

/-- Labels between square brackets, separated by commas. -/
def bracketed (labels : List String) : String := "[" ++ ", ".intercalate labels ++ "]"

/-- The state of a limit. -/
def Limit.inspect (limit : Limit) : String :=
  let max := match limit.max with
    | some n => "Some(" ++ toString n ++ ")"
    | none => "None"
  "Options \x7b max_depth: " ++ max ++ " \x7d"

variable {φ : Type}

/-- The state of a stack. -/
def Stack.inspect (label : φ → String) (s : Stack φ) : String :=
  "CallStack \x7b frames: " ++ bracketed (s.toList.reverse.map label) ++ ", options: " ++
    s.limit.inspect ++ " \x7d"

/-- The state of a guard, which includes the stack it guards. -/
def Guard.inspect (label : φ → String) (guard : Guard φ) (s : Stack φ) : String :=
  "FrameGuard \x7b stack: " ++ s.inspect label ++ ", frame: " ++ label guard.frame ++
    ", entry_depth: " ++ toString guard.entryDepth ++ " \x7d"

/-- The state of a machine: of the guard, where the running code can reach one, and
else of the stack. -/
def Machine.inspect (label : φ → String) (m : Machine φ) : String :=
  match m.guard? with
  | some guard => guard.inspect label m.stack
  | none => m.stack.inspect label

/-- The state of a cursor that has the frames `stored` still to visit, given in
slot order. -/
def Cursor.inspect (label : φ → String) (stored : List φ) : String :=
  "Iter \x7b inner: Rev \x7b iter: Iter(" ++ bracketed (stored.map label) ++ ") \x7d \x7d"

end CallPath
