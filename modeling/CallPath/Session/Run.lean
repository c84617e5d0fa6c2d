import CallPath.Descent
import CallPath.Inspect
import CallPath.Session.Basic
import CallPath.Session.Command
import CallPath.Stack.Render
import CallPath.Stack.Walk

/-!
# Running a session

Each command is put together from calls on the current stack and the movements of
handles they cause; what it came to is noted as a step. A command that makes no
sense where it stands is rejected and changes nothing, except that a fresh frame
made before the flaw shows is given up again while its number stays taken. The two
commands that render the whole stack can do worse: a frame that fails to be displayed
is a panic nobody asked for, and leaves no step.

Bodies run on the machine of the session. One that runs on a named stack takes that
stack out of its table, so that inside the body the name is free, and puts it back
in the end, however the body ended.
-/

namespace CallPath.Session

/-! ## Expressions -/

/-- Evaluates an expression; the handle that comes out is for the command to use. -/
def eval? (s : Session) : FrameExpr → Option (Frame × Session)
  | .held name => (s.bound.find? name).map (fun frame => (frame, s.retain [frame]))
  | .fresh name mute => some (s.create name mute)
  | .level level =>
      let frame := s.machine.stack.get level
      some (frame, s.moved (s.machine.call (.get level)))
  | .native => some (Sentinel.native, s.retain [Sentinel.native])
  | .pushed => s.machine.guard?.map (fun guard => (guard.frame, s.retain [guard.frame]))

/-- Makes a stack; what it logs goes into the session's log. -/
def build? (s : Session) : StackExpr → Option (Stack Frame × Session)
  | .empty limit => some (.empty limit, s)
  | .seeded expr =>
      (s.eval? expr).map (fun (frame, s) =>
        let reply := (Stack.empty : Stack Frame).call (.push frame)
        (reply.stack, s.absorb reply.effect))

/-! ## Commands -/

/-- Turns the answer of a call into a result. What the answer hands over goes under
the name to save it by, if there is one, and is given up if there is none. -/
def conclude (s : Session) (save : Option String) : Answer Frame → Result × Session
  | .done => (.done, s)
  | .frame frame =>
      (.frame frame, match save with
        | some name => s.hold name frame
        | none => s.release [frame])
  | .seen frame => (.seen frame, s)
  | .flag value => (.flags value value, s)
  | .depth depth isEmpty => (.depth depth isEmpty, s)
  | .limit limit => (.limit limit (limit = {}) (limit = .unbounded) limit.inspect, s)
  | .frames frames =>
      (.frames frames, match save with
        | some name => s.saveList name frames
        | none => s.release frames)
  | .steps answers => (.walked answers, s)
  | .stack stack =>
      (.number stack.depth, match save with
        | some name => s.store name stack
        | none => s.release stack.toList)
  | .fault fault => (.fault fault, s)

def ask (s : Session) (c : Call Frame) (save : Option String := none) : Result × Session :=
  (s.call c).2.conclude save (s.call c).1

/-- Lets a variable hold one more handle to the frame at hand, if one is named. -/
def holdClone (s : Session) (save : Option String) (frame : Frame) : Session :=
  match save with
  | some name => (s.retain [frame]).hold name frame
  | none => s

/-- Says what there is to say about the frame that a call hands over. -/
def describe (s : Session) (level : Nat) : Result :=
  let frame := s.machine.stack.get level
  .described frame (s.registry.scope frame).name (s.machine.stack.isNative frame)

/-- Pushes `n` fresh frames, their names numbered from `i` on. -/
def pushFresh (s : Session) (name : String) (i : Nat) : Nat → Session
  | 0 => s
  | n + 1 =>
      let made := s.create (name ++ toString i)
      (made.2.call (.push made.1)).2.pushFresh name (i + 1) n

/-- Pops up to `n` frames, stopping at the first fault. -/
def popUpTo (s : Session) : Nat → List Frame × Option Fault × Session
  | 0 => ([], none, s)
  | n + 1 =>
      match s.call .pop with
      | (.frame frame, s) =>
          let rest := (s.release [frame]).popUpTo n
          (frame :: rest.1, rest.2)
      | (.fault fault, s) => ([], some fault, s)
      | (_, s) => ([], none, s)

/-- Creates `count` frames for a recursion of `n` calls, named for the calls left. -/
def createForCalls (s : Session) (name : String) (n : Nat) : Nat → Session
  | 0 => s
  | count + 1 => (s.create (name ++ " " ++ toString n)).2.createForCalls name (n - 1) count

def recurse (s : Session) (name : String) (n : Nat) : Result × Session :=
  let first := s.registry.scopes.size
  let descent := s.machine.descend (fun i => .numbered (first + i)) 0 n
  let made := s.createForCalls name n descent.frames
  (match descent.result with
    | .ok depth => .number depth
    | .error fault => .fault fault,
    made.moved { machine := descent.machine, effect := descent.effect })

/-- Runs a command that returns whatever it comes to. There is no result where the
command is to be rejected and has changed nothing. -/
def perform? (s : Session) : Command → Option (Result × Session)
  | .push expr save =>
      (s.eval? expr).map (fun (frame, s) => (s.holdClone save frame).ask (.push frame))
  | .pop save => some (s.ask .pop save)
  | .swap expr save => (s.eval? expr).map (fun (frame, s) => s.ask (.swap frame) save)
  | .set level expr => (s.eval? expr).map (fun (frame, s) => s.ask (.set level frame))
  | .get level save => some (s.describe level, (s.ask (.get level) save).2)
  | .top save => some (s.describe 0, (s.ask .top save).2)
  | .frame level => some (s.ask (.frame level))
  | .isNative expr =>
      (s.eval? expr).map (fun (frame, s) =>
        let asked := s.ask (.isNative frame)
        (asked.1, asked.2.release [frame]))
  | .depth => some (s.ask .depth)
  | .clear => some (s.ask .clear)
  | .pushMany name n =>
      if n = 0 then some (.done, s) else name.map (fun name => (.done, s.pushFresh name 0 n))
  | .popMany n =>
      let popped := s.popUpTo n
      some (.popped popped.1 popped.2.1, popped.2.2)
  | .recurse name n => some (s.recurse name n)
  | .iterate source calls => some (s.ask (.iterate source calls))
  | .list save => some (s.ask .list save)
  | .saved name => (s.lists.find? name).map (fun frames => (.frames frames, s))
  | .dropSaved name =>
      (s.lists.find? name).map (fun frames =>
        (.done, { s with lists := s.lists.erase name }.release frames))
  | .renderInto capacity =>
      let written := s.machine.stack.renderInto s.registry.text? { capacity := some capacity }
      some (.rendered written.2 written.1.text, s)
  | .inspect => some (.text (s.machine.inspect Frame.label), s)
  | .limit => some (s.ask .limit)
  | .pushed => some (.seen (s.machine.guard?.map Guard.frame), s)
  | .walk => some (.frames s.machine.stack.walk, s)
  | .copy name | .clone name => some (.done, (s.ask .copy (some name)).2)
  | .assign source =>
      (s.named.find? source).map (fun stack =>
        (.done, ((s.retain stack.toList).ask (.replace stack)).2))
  | .take save => some (s.ask (.replace .empty) save)
  | .make name expr => (s.build? expr).map (fun (stack, s) => (.done, s.store name stack))
  | .dropStack name =>
      (s.named.find? name).map (fun stack =>
        (.done, { s with named := s.named.erase name }.release stack.toList))
  | .bind name expr => (s.eval? expr).map (fun (frame, s) => (.frame frame, s.hold name frame))
  | .unbind name =>
      (s.bound.find? name).map (fun frame =>
        (.done, { s with bound := s.bound.erase name }.release [frame]))
  | .count id =>
      (Frame.ofId? id).bind (fun frame =>
        if s.registry.has frame then some (.number (s.ledger.count frame), s) else none)
  | .define expr ident value =>
      (s.eval? expr).map (fun (frame, s) =>
        (.done, { s with registry := s.registry.define frame ident value }.release [frame]))
  | .resolve expr ident =>
      (s.eval? expr).map (fun (frame, s) =>
        (.value (s.registry.resolve frame ident), s.release [frame]))
  | .lookup level ident =>
      let frame := s.machine.stack.get level
      if s.machine.stack.isNative frame then some (.native, s)
      else ident.map (fun ident => (.value (s.registry.resolve frame ident), s))
  | .report fault other =>
      some (.compared fault (fault = fault) (other.map (fun o => fault = o)), s)
  | .malformed _ expr =>
      (expr.bind s.eval?).map (fun (frame, s) => (.rejected, s.release [frame]))
  | .render | .fail _ | .panic _ => none

def note (s : Session) (name : String) : Option (Result × Session) → Session
  | some (result, s) => s.step name result
  | none => s.step name .rejected

/-- Runs a command as a step, or panics over a frame that fails to be displayed. -/
def act (c : Command) (s : Session) : Session × Outcome :=
  match c with
  | .render =>
      match s.machine.stack.render? s.registry.text? with
      | some text => (s.step c.name (.text text), .returned)
      | none => (s, .crashed)
  | .fail message =>
      -- the trace is taken here, before any guard is left
      match s.machine.stack.render? s.registry.text? with
      | some text => (s.step c.name (.trace text), .failed (.message message))
      | none => (s, .crashed)
  | .panic message => (s.step c.name .nothing, .panicked message)
  | _ => (s.note c.name (s.perform? c), .returned)

/-! ## Bodies -/

def enterFrame (s : Session) (name : String) (manner : Manner) (expr : FrameExpr)
    (insist : Bool) : Opening Session :=
  match s.eval? expr with
  | none => .skipped (s.step name .rejected) .returned
  | some (frame, s) =>
      let entry := s.machine.enter manner frame
      match entry.answer.fault? with
      | some fault =>
          .skipped ((s.moved entry).step name (.fault fault))
            (if insist then .failed (.refusal fault) else .returned)
      | none => .opened ((s.moved entry).step name .done)

/-- Leaves the frame of a body that has ended, or forgets about it. -/
def leaveFrame (s : Session) (forget : Bool) (o : Outcome) : Session × Outcome :=
  let t := if forget then s.machine.forget else s.machine.leave
  ((s.moved t).step "exit" (.left o s.machine.stack.depth), o)

def suspendFor (s : Session) (name : String) (stack : Stack Frame) : Session :=
  { s with
    machine := { stack }
    suspended := s.machine :: s.suspended
    named := s.named.erase name }

/-- Puts the current stack back under its name and goes on with the one that
waited. -/
def resume (s : Session) (name : String) : Session :=
  match s.suspended with
  | [] => s
  | outer :: rest =>
      -- what was forgotten in here is still held on to out there
      { s with
        machine := { outer with forgotten := s.machine.forgotten ++ outer.forgotten }
        suspended := rest }.store name s.machine.stack

def openBody (header : Section) (s : Session) : Opening Session :=
  match header with
  | .enter expr insist _ => s.enterFrame header.name .reachable expr insist
  | .enterHidden expr insist => s.enterFrame header.name .hidden expr insist
  | .attempt => .opened s
  | .within name =>
      match s.named.find? name with
      | some stack => .opened (s.suspendFor name stack)
      | none => .skipped (s.step header.name .rejected) .returned

def closeBody (header : Section) (o : Outcome) (s : Session) : Session × Outcome :=
  match header with
  | .enter _ _ forget => s.leaveFrame (forget && o = .returned) o
  | .enterHidden _ _ => s.leaveFrame false o
  | .attempt => (s.step "caught" (.caught o), .returned)
  | .within name => ((s.resume name).step "end_with" .nothing, o)

def host : Host Command Section Session where
  act := act
  enter := openBody
  leave := closeBody

/-! ## Whole sessions -/

/-- A session that begins with a stack of the given description. -/
def start? (expr : StackExpr) : Option Session :=
  (({} : Session).build? expr).map (fun (stack, s) =>
    (s.ask (.replace stack)).2.step "start" .nothing)

def run (s : Session) (script : Script) : Session × Outcome := script.run host s

end CallPath.Session
