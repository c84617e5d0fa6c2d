import CallPath.Call
import CallPath.Program
import CallPath.Session.Frame

/-!
# The command language of a session

A script says what to do with stacks, frames and the variables that hold them. Its
commands name frames by expressions, which are evaluated when the command runs. A
command can be malformed; it is then carried along under its name, so that it takes
its place among the steps and is rejected there. What is needed in some cases only
may be missing in the others, so a command that lacks it is malformed only where it
is needed.
-/

namespace CallPath

/-- How a command names a frame. -/
inductive FrameExpr where
  | held (name : String)
  /-- A frame made for the occasion. -/
  | fresh (name : String) (mute : Bool)
  | level (level : Nat)
  | native
  /-- The frame that the guard within reach has pushed. -/
  | pushed
  deriving DecidableEq

/-- How a command describes a stack to be made. -/
inductive StackExpr where
  | empty (limit : Limit)
  | seeded (frame : FrameExpr)
  deriving DecidableEq

/-- A command without a body. -/
inductive Command where
  | push (frame : FrameExpr) (save : Option String)
  | pop (save : Option String)
  | swap (frame : FrameExpr) (save : Option String)
  | set (level : Nat) (frame : FrameExpr)
  | get (level : Nat) (save : Option String)
  | top (save : Option String)
  | frame (level : Nat)
  | isNative (frame : FrameExpr)
  | depth
  | clear
  /-- Pushes `n` fresh frames, which need a name if there is one of them at least. -/
  | pushMany (name : Option String) (n : Nat)
  | popMany (n : Nat)
  | recurse (name : String) (n : Nat)
  | iterate (source : Source) (calls : List CursorCall)
  | list (save : Option String)
  | saved (name : String)
  | dropSaved (name : String)
  | render
  | renderInto (capacity : Nat)
  | inspect
  | limit
  /-- Asks the guard within reach for the frame it pushed. -/
  | pushed
  | walk
  | copy (name : String)
  | clone (name : String)
  /-- Puts a clone of a named stack in the place of the current one. -/
  | assign (source : String)
  /-- Puts a new stack in the place of the current one. -/
  | take (save : Option String)
  | make (name : String) (stack : StackExpr)
  | dropStack (name : String)
  | bind (name : String) (frame : FrameExpr)
  | unbind (name : String)
  /-- Asks how many handles to a frame are out. -/
  | count (id : Int)
  | define (frame : FrameExpr) (ident : String) (value : Int)
  | resolve (frame : FrameExpr) (ident : String)
  /-- Resolves in the frame at a level, which needs an identifier if it is a script
  frame. -/
  | lookup (level : Nat) (ident : Option String)
  /-- Reports a fault, and whether it equals another. -/
  | report (fault : Fault) (other : Option Fault)
  | fail (message : String)
  | panic (message : String)
  /-- Something that is no command, under the name it goes by. If it names a frame
  and the flaw comes after that, the frame is evaluated nevertheless. -/
  | malformed (name : String) (frame : Option FrameExpr)

/-- A command with a body. -/
inductive Section where
  /-- Enters a frame with a guard within reach of the body. -/
  | enter (frame : FrameExpr) (insist forget : Bool)
  /-- Enters a frame with a guard out of reach. -/
  | enterHidden (frame : FrameExpr) (insist : Bool)
  | attempt
  | within (stack : String)

abbrev Script := Program Command Section

/-- The name a command goes by among the steps. -/
def Command.name : Command → String
  | push .. => "push"
  | pop .. => "pop"
  | swap .. => "swap"
  | set .. => "set"
  | get .. => "get"
  | top .. => "top"
  | frame .. => "frame"
  | isNative .. => "is_native"
  | depth => "depth"
  | clear => "clear"
  | pushMany .. => "push_n"
  | popMany .. => "pop_n"
  | recurse .. => "recurse"
  | iterate .. => "iter"
  | list .. => "to_vec"
  | saved .. => "vec"
  | dropSaved .. => "drop_vec"
  | render => "render"
  | renderInto .. => "render_into"
  | inspect => "debug"
  | limit => "options"
  | pushed => "pushed"
  | walk => "walk"
  | copy .. => "copy"
  | clone .. => "clone"
  | assign .. => "assign"
  | take .. => "take"
  | make .. => "make"
  | dropStack .. => "drop_stack"
  | bind .. => "let"
  | unbind .. => "drop"
  | count .. => "count"
  | define .. => "define"
  | resolve .. => "resolve"
  | lookup .. => "lookup"
  | report .. => "error"
  | fail .. => "fail"
  | panic .. => "panic"
  | malformed name _ => name

/-- The name of the step at which a body is opened, or rejected. -/
def Section.name : Section → String
  | .enter .. => "enter"
  | .enterHidden .. => "scoped"
  | .attempt => "catch"
  | .within .. => "with"

end CallPath
