import CallPath.Session.Table
import CallPath.Stack.Basic

/-!
# Frames with an identity

In a session a frame is a number: the place it took in the order of creation, or
the sentinel. Two frames of one name are two frames. What a frame carries, its name
and its bindings, is kept apart in a registry, where everyone who holds the frame
finds the same thing.
-/

namespace CallPath

inductive Frame where
  | native
  | numbered (index : Nat)
  deriving DecidableEq

instance : Sentinel Frame := ⟨.native⟩

namespace Frame

/-- The number that stands for a frame; the sentinel has the one below all others. -/
def id : Frame → Int
  | native => -1
  | numbered index => index

def ofId? (id : Int) : Option Frame :=
  if id = -1 then some .native else if 0 ≤ id then some (.numbered id.toNat) else none

/-- The label of a frame in texts that show state. -/
def label (frame : Frame) : String := "#" ++ toString frame.id

end Frame

/-- What a frame carries. -/
structure Scope where
  /-- Its name, which need not be its own. -/
  name : String
  /-- Whether it fails to be displayed. -/
  mute : Bool := false
  bindings : Table Int := {}

/-- How a scope is displayed, if it is. -/
def Scope.text? (scope : Scope) : Option String :=
  if scope.mute then none else some ("NameSpace: " ++ scope.name)

/-- What every frame created so far carries. -/
structure Registry where
  scopes : Array Scope := #[]
  native : Scope := { name := "native code" }

namespace Registry

/-- What a frame carries. A frame that was never created carries nothing. -/
def scope (r : Registry) : Frame → Scope
  | .native => r.native
  | .numbered index => r.scopes[index]?.getD { name := "" }

/-- The frame that will be created next. -/
def upcoming (r : Registry) : Frame := .numbered r.scopes.size

def create (r : Registry) (name : String) (mute : Bool := false) : Registry :=
  { r with scopes := r.scopes.push { name, mute } }

def has (r : Registry) : Frame → Bool
  | .native => true
  | .numbered index => index < r.scopes.size

def define (r : Registry) (frame : Frame) (ident : String) (value : Int) : Registry :=
  let defined (scope : Scope) : Scope :=
    { scope with bindings := scope.bindings.insert ident value }
  match frame with
  | .native => { r with native := defined r.native }
  | .numbered index => { r with scopes := r.scopes.modify index defined }

def resolve (r : Registry) (frame : Frame) (ident : String) : Option Int :=
  (r.scope frame).bindings.find? ident

/-- How a frame is displayed, if it is. -/
def text? (r : Registry) (frame : Frame) : Option String := (r.scope frame).text?

end Registry

end CallPath
