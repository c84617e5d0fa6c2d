import CallPath.Proofs.History
import CallPath.Proofs.TopFirst
import CallPath.Session.Frame

/-!
# Frames are opaque

A stack asks one question of a frame, whether it is the sentinel. Exchange the frames for
others, so that the sentinel and nothing else becomes the sentinel, and everything goes on as
before: the same calls are refused, the same guards find the same depths, the log is the same,
and wherever a frame is handed out it is the one that the frame was exchanged for. Frames that
were different may have become the same; nobody compares them.

The exchange is written down once for every type that mentions frames, as its `map`, and what
has to be proved is that each operation commutes with it. The only delicate one is reading by
level. Below the bottom it answers with the sentinel, a frame that nobody put on the stack, and
the program may then do with it what it likes.
-/

namespace CallPath

variable {φ ψ : Type}

/-! ## Exchanging frames -/

def Stack.map (f : φ → ψ) (s : Stack φ) : Stack ψ := .ofList s.limit (s.toList.map f)

def Guard.map (f : φ → ψ) (guard : Guard φ) : Guard ψ :=
  { frame := f guard.frame, entryDepth := guard.entryDepth, manner := guard.manner }

def Machine.map (f : φ → ψ) (m : Machine φ) : Machine ψ :=
  { stack := m.stack.map f, guards := m.guards.map (Guard.map f)
    forgotten := m.forgotten.map f }

def CursorAnswer.map (f : φ → ψ) : CursorAnswer φ → CursorAnswer ψ
  | frame there => .frame (there.map f)
  | number n => .number n
  | bounds lower upper => .bounds lower upper
  | frames l => .frames (l.map f)
  | stored l => .stored (l.map f)

def Call.map (f : φ → ψ) : Call φ → Call ψ
  | push given => .push (f given)
  | pop => .pop
  | swap given => .swap (f given)
  | set level given => .set level (f given)
  | clear => .clear
  | get level => .get level
  | top => .top
  | frame level => .frame level
  | isNative given => .isNative (f given)
  | depth => .depth
  | limit => .limit
  | list => .list
  | iterate source calls => .iterate source calls
  | copy => .copy
  | replace next => .replace (next.map f)

def Answer.map (f : φ → ψ) : Answer φ → Answer ψ
  | done => .done
  | frame there => .frame (f there)
  | seen there => .seen (there.map f)
  | flag value => .flag value
  | depth n isEmpty => .depth n isEmpty
  | limit bound => .limit bound
  | frames l => .frames (l.map f)
  | steps answers => .steps (answers.map (CursorAnswer.map f))
  | stack s => .stack (s.map f)
  | fault e => .fault e

def Effect.map (f : φ → ψ) (e : Effect φ) : Effect ψ :=
  { events := e.events, cloned := e.cloned.map f, dropped := e.dropped.map f }

def Reply.map (f : φ → ψ) (r : Reply φ) : Reply ψ :=
  { answer := r.answer.map f, stack := r.stack.map f, effect := r.effect.map f }

def Move.map (f : φ → ψ) : Move φ → Move ψ
  | call c => .call (c.map f)
  | enter manner frame => .enter manner (f frame)
  | leave => .leave
  | forget => .forget

def Transition.map (f : φ → ψ) (t : Transition φ) : Transition ψ :=
  { answer := t.answer.map f, machine := t.machine.map f, effect := t.effect.map f }

def Record.map (f : φ → ψ) (record : Record φ) : Record ψ :=
  { before := record.before.map f, move := record.move.map f, result := record.result.map f }

def Recording.map (f : φ → ψ) (r : Recording φ) : Recording ψ :=
  { machine := r.machine.map f, history := r.history.map (Record.map f) }

def Act.map (f : φ → ψ) : Act φ → Act ψ
  | call c => .call (c.map f)
  | fail message => .fail message
  | panic message => .panic message

def Block.map (f : φ → ψ) : Block φ → Block ψ
  | enter frame insist forget => .enter (f frame) insist forget
  | enterHidden frame insist => .enterHidden (f frame) insist
  | attempt => .attempt

/-- The same program with other acts and blocks. -/
def Program.map {α β γ δ : Type} (f : α → γ) (g : β → δ) : Program α β → Program γ δ
  | done => .done
  | act a rest => .act (f a) (rest.map f g)
  | block b body rest => .block (g b) (body.map f g) (rest.map f g)
  | loop n body rest => .loop n (body.map f g) (rest.map f g)

/-- The host that does for an act or a block what another one does for its image. -/
def Host.comap {α β γ δ σ : Type} (h : Host γ δ σ) (f : α → γ) (g : β → δ) : Host α β σ where
  act a s := h.act (f a) s
  enter b s := h.enter (g b) s
  leave b o s := h.leave (g b) o s

/-- The program with its frames exchanged. -/
def Program.exchange (f : φ → ψ) (p : Program (Act φ) (Block φ)) : Program (Act ψ) (Block ψ) :=
  p.map (Act.map f) (Block.map f)

/-- Code that makes one move after another and goes by their answers. -/
inductive Course (φ : Type) where
  | ended
  | move (mv : Move φ) (next : Answer φ → Course φ)

/-- Two courses that differ by an exchange of frames: in the moves that they make, and further on
if they are answered alike. -/
inductive Course.Exchanged (f : φ → ψ) : Course φ → Course ψ → Prop where
  | ended : Exchanged f .ended .ended
  | move {mv : Move φ} {next : Answer φ → Course φ} {next' : Answer ψ → Course ψ} :
      (∀ answer, Exchanged f (next answer) (next' (answer.map f))) →
      Exchanged f (.move mv next) (.move (mv.map f) next')

/-- Makes the moves of a course. -/
def Recording.follow [Sentinel φ] [DecidableEq φ] (r : Recording φ) : Course φ → Recording φ
  | .ended => r
  | .move mv next => (r.move mv).follow (next (r.machine.step mv).answer)

/-- An exchange that makes the sentinel out of the sentinel, and out of no other frame. -/
def KeepsNative [Sentinel φ] [Sentinel ψ] (f : φ → ψ) : Prop :=
  ∀ frame, f frame = Sentinel.native ↔ frame = Sentinel.native

theorem run_map {α β γ δ σ : Type} (h : Host γ δ σ) (f : α → γ) (g : β → δ) (p : Program α β)
    (s : σ) : (p.map f g).run h s = p.run (h.comap f g) s := by
  induction p generalizing s with
  | done => rfl
  | act a rest ih => exact congrArg (andThen (h.act (f a) s)) (funext ih)
  | block b body rest ihBody ihRest =>
      rw [Program.map, Program.run, Program.run, funext ihRest]
      rw [show (h.comap f g).enter b s = h.enter (g b) s from rfl]
      cases h.enter (g b) s with
      | skipped s o => rfl
      | opened s =>
          dsimp only
          rw [ihBody]
          rfl
  | loop n body rest ihBody ihRest =>
      rw [Program.map, Program.run, Program.run, funext ihRest, funext ihBody]

/-! ## Reading and writing exchanged frames -/

namespace Stack

variable (f : φ → ψ) (s : Stack φ)

theorem toList_map : (s.map f).toList = s.toList.map f := toList_ofList _ _

theorem depth_map : (s.map f).depth = s.depth := by
  rw [← length_toList, toList_map, List.length_map, length_toList]

theorem map_ofList (limit : Limit) (l : List φ) : (ofList limit l).map f = ofList limit (l.map f) :=
  ext_toList (by rw [toList_map, toList_ofList, toList_ofList]) rfl

theorem push_map (frame : φ) : (s.map f).push (f frame) = (s.push frame).map f := by
  refine ext_toList ?_ rfl
  rw [toList_push, toList_map, toList_map, toList_push, List.map_cons]

theorem clear_map : (s.map f).clear = s.clear.map f :=
  ext_toList (by rw [toList_clear, toList_map, toList_clear, List.map_nil]) rfl

theorem isEmpty_map : (s.map f).isEmpty = s.isEmpty := by
  rw [isEmpty_eq, isEmpty_eq, toList_map, List.isEmpty_map]

theorem frame?_map (level : Nat) : (s.map f).frame? level = (s.frame? level).map f := by
  rw [frame?_eq, frame?_eq, toList_map, List.getElem?_map]

theorem pop?_map : (s.map f).pop? = s.pop?.map (Prod.map f (map f)) := by
  rw [pop?_eq, pop?_eq, toList_map, List.head?_map, Option.map_map, Option.map_map]
  congr 1
  funext frame
  show (f frame, ofList s.limit (s.toList.map f).tail) = (f frame, (ofList _ _).map f)
  rw [map_ofList, List.map_tail]

theorem set?_map (level : Nat) (frame : φ) :
    (s.map f).set? level (f frame) = (s.set? level frame).map (Prod.map f (map f)) := by
  rw [set?_eq, set?_eq, toList_map, List.getElem?_map, Option.map_map, Option.map_map]
  congr 1
  funext old
  show (f old, ofList s.limit ((s.toList.map f).set level (f frame))) = (f old, (ofList _ _).map f)
  rw [map_ofList, List.map_set]

theorem swap?_map (frame : φ) :
    (s.map f).swap? (f frame) = (s.swap? frame).map (Prod.map f (map f)) := by
  rw [swap?_eq, swap?_eq, set?_map]

theorem truncate_map (depth : Nat) : (s.map f).truncate depth = (s.truncate depth).map f := by
  refine ext_toList ?_ rfl
  rw [toList_truncate, toList_map, toList_map, toList_truncate, depth_map, List.map_drop]

theorem beyond_map (depth : Nat) : (s.map f).beyond depth = (s.beyond depth).map f := by
  rw [beyond, beyond, toList_map, depth_map, List.map_take]

variable [Sentinel φ] [Sentinel ψ] {f}

/-- Reading by level is exchanged below the bottom too, where nobody put a frame. -/
theorem get_map (keeps : KeepsNative f) (level : Nat) : (s.map f).get level = f (s.get level) := by
  have native : f Sentinel.native = Sentinel.native := (keeps _).mpr rfl
  rw [get, get, frame?_map]
  cases s.frame? level with
  | none => exact native.symm
  | some frame => rfl

theorem isNative_map [DecidableEq φ] [DecidableEq ψ] (keeps : KeepsNative f) (frame : φ) :
    (s.map f).isNative (f frame) = s.isNative frame :=
  decide_eq_decide.mpr (keeps frame)

end Stack

/-- A cursor does not look at what it walks over. -/
theorem CursorCall.onList_map (f : φ → ψ) (l : List φ) (c : CursorCall) :
    c.onList (l.map f) = ((c.onList l).1.map f, (c.onList l).2.map f) := by
  cases c <;> simp [onList, CursorAnswer.map, ← List.map_reverse]

theorem CursorCall.runOnList_map (f : φ → ψ) (cs : List CursorCall) (l : List φ) :
    runOnList (l.map f) cs = (runOnList l cs).map (CursorAnswer.map f) := by
  induction cs generalizing l with
  | nil => rfl
  | cons c cs ih => rw [runOnList, runOnList, onList_map, ih, List.map_cons]

theorem Source.run_map (f : φ → ψ) (s : Stack φ) (source : Source) (cs : List CursorCall) :
    (source.cursor (s.map f)).run cs = ((source.cursor s).run cs).map (CursorAnswer.map f) := by
  have frames : source.frames (s.toList.map f) = (source.frames s.toList).map f := by
    cases source with
    | whole => rfl
    | callers => exact (List.map_tail).symm
  rw [Cursor.run_onList, Cursor.run_onList, Source.remaining_cursor, Source.remaining_cursor,
    Stack.toList_map, frames, CursorCall.runOnList_map]

/-! ## Moves with exchanged frames -/

section

variable [Sentinel φ] [DecidableEq φ] [Sentinel ψ] [DecidableEq ψ] {f : φ → ψ}

/-- **A call commutes with the exchange:** its answer, the stack that it leaves, what it logs
and the handles that it makes and gives up. -/
theorem Stack.call_map (keeps : KeepsNative f) (s : Stack φ) (c : Call φ) :
    (s.map f).call (c.map f) = (s.call c).map f := by
  cases c with
  | push frame =>
      show Reply.mk _ _ _ = Reply.mk _ _ _
      rw [push_map, depth_map]
      rfl
  | pop =>
      have popped := s.pop?_map f
      cases hs : s.pop? with
      | none =>
          rw [hs] at popped
          rw [call_pop_of_none hs]
          exact call_pop_of_none popped
      | some there =>
          rw [hs] at popped
          have reply := call_pop_of_some popped
          rw [depth_map] at reply
          rw [call_pop_of_some hs]
          exact reply
  | swap frame =>
      have swapped := s.swap?_map f frame
      cases hs : s.swap? frame with
      | none =>
          rw [hs] at swapped
          rw [call_swap_of_none hs]
          exact call_swap_of_none swapped
      | some there =>
          rw [hs] at swapped
          have reply := call_swap_of_some swapped
          rw [depth_map] at reply
          rw [call_swap_of_some hs]
          exact reply
  | set level frame =>
      have written := s.set?_map f level frame
      cases hs : s.set? level frame with
      | none =>
          rw [hs] at written
          have reply := call_set_of_none written
          rw [depth_map] at reply
          rw [call_set_of_none hs]
          exact reply
      | some there =>
          rw [hs] at written
          rw [call_set_of_some hs]
          exact call_set_of_some written
  | clear =>
      show Reply.mk _ _ (Effect.mk _ _ _) = Reply.mk _ _ (Effect.mk _ _ _)
      rw [toList_map, clear_map]
      rfl
  | get level =>
      show Reply.mk _ _ (Effect.mk _ _ _) = Reply.mk _ _ (Effect.mk _ _ _)
      rw [get_map s keeps]
      rfl
  | top =>
      show Reply.mk _ _ (Effect.mk _ _ _) = Reply.mk _ _ (Effect.mk _ _ _)
      rw [top, get_map s keeps]
      rfl
  | frame level =>
      show Reply.mk _ _ _ = Reply.mk _ _ _
      rw [frame?_map]
      rfl
  | isNative frame =>
      show Reply.mk _ _ _ = Reply.mk _ _ _
      rw [isNative_map s keeps]
      rfl
  | depth =>
      show Reply.mk _ _ _ = Reply.mk _ _ _
      rw [depth_map, isEmpty_map]
      rfl
  | limit => rfl
  | list =>
      show Reply.mk _ _ (Effect.mk _ _ _) = Reply.mk _ _ (Effect.mk _ _ _)
      rw [toList_map]
      rfl
  | iterate source calls =>
      show Reply.mk _ _ _ = Reply.mk _ _ _
      rw [Source.run_map]
      rfl
  | copy =>
      show Reply.mk _ _ (Effect.mk _ _ _) = Reply.mk _ _ (Effect.mk _ _ _)
      rw [toList_map]
      rfl
  | replace next => rfl

/-- A guard goes by depths, so it is left in the same way, whichever frames it finds. -/
theorem Machine.release_map (s : Stack φ) (guard : Guard φ) :
    release (s.map f) (guard.map f) = ((release s guard).1.map f, (release s guard).2.map f) := by
  have depth := s.depth_map f
  by_cases balanced : s.depth = guard.entryDepth + 1
  · obtain ⟨frame, rest, hp, -⟩ := Stack.pop?_of_depth balanced
    have popped : (s.map f).pop? = some (f frame, rest.map f) := by
      rw [Stack.pop?_map, hp]
      rfl
    rw [release_balanced (depth.trans balanced) popped, release_balanced balanced hp,
      Stack.depth_map]
    rfl
  · have unbalanced : (s.map f).depth ≠ (guard.map f).entryDepth + 1 := by
      rw [depth]
      exact balanced
    have dropped : (s.map f).beyond guard.entryDepth ++ [f guard.frame]
        = (s.beyond guard.entryDepth ++ [guard.frame]).map f := by
      rw [Stack.beyond_map, List.map_append]
      rfl
    rw [release_unbalanced unbalanced, release_unbalanced balanced]
    show (_, Effect.mk [.unbalanced (s.map f).depth _, .truncated ((s.map f).truncate _).depth] []
      ((s.map f).beyond guard.entryDepth ++ [f guard.frame])) = _
    rw [dropped, depth]
    show ((s.map f).truncate guard.entryDepth, Effect.mk [_, .truncated
      ((s.map f).truncate guard.entryDepth).depth] _ _) = _
    rw [Stack.truncate_map, Stack.depth_map]
    rfl

theorem Machine.enter_map (m : Machine φ) (manner : Manner) (frame : φ) :
    (m.map f).enter manner (f frame) = (m.enter manner frame).map f := by
  have depth : (m.map f).stack.depth = m.stack.depth := m.stack.depth_map f
  have asked : (m.map f).stack.limit.refusal? (m.map f).stack.depth
      = m.stack.limit.refusal? m.stack.depth := by
    rw [depth]
    rfl
  cases hr : m.stack.limit.refusal? m.stack.depth with
  | some limit =>
      rw [hr] at asked
      rw [enter_refused asked, enter_refused hr, depth]
      rfl
  | none =>
      rw [hr] at asked
      have pushed : (m.map f).stack.push (f frame) = (m.stack.push frame).map f :=
        m.stack.push_map f frame
      rw [enter_accepted asked, enter_accepted hr, pushed, depth, Stack.depth_map]
      rfl

/-- **A move commutes with the exchange.** -/
theorem Machine.step_map (keeps : KeepsNative f) (m : Machine φ) (mv : Move φ) :
    (m.map f).step (mv.map f) = (m.step mv).map f := by
  cases mv with
  | call c =>
      have reply : (m.map f).stack.call (c.map f) = (m.stack.call c).map f :=
        m.stack.call_map keeps c
      show Transition.mk _ _ _ = Transition.mk _ _ _
      rw [reply]
      rfl
  | enter manner frame => exact m.enter_map manner frame
  | leave =>
      obtain ⟨stack, guards, forgotten⟩ := m
      cases guards with
      | nil => rfl
      | cons guard rest =>
          have released := release_map (f := f) stack guard
          show Transition.mk _ (Machine.mk (release (stack.map f) (guard.map f)).1 _ _)
            (release (stack.map f) (guard.map f)).2 = _
          rw [released]
          rfl
  | forget =>
      obtain ⟨stack, guards, forgotten⟩ := m
      cases guards <;> rfl

/-! ## Runs with exchanged frames -/

theorem Recording.move_map (keeps : KeepsNative f) (r : Recording φ) (mv : Move φ) :
    (r.map f).move (mv.map f) = (r.move mv).map f := by
  have stepped : (r.map f).machine.step (mv.map f) = (r.machine.step mv).map f :=
    r.machine.step_map keeps mv
  show Recording.mk ((r.map f).machine.step (mv.map f)).machine
    (Record.mk _ _ ((r.map f).machine.step (mv.map f)) :: _) = _
  rw [stepped]
  rfl

/-- An entry is let in or refused as before, so the body is run or skipped as before. -/
theorem Recording.enter_map (keeps : KeepsNative f) (r : Recording φ) (manner : Manner) (frame : φ)
    (insist : Bool) :
    OpensAlike (fun r' r => r' = r.map f) ((r.map f).enter manner (f frame) insist)
      (r.enter manner frame insist) := by
  have moved := r.move_map keeps (.enter manner frame)
  have answer : ((r.map f).machine.enter manner (f frame)).answer.fault?
      = (r.machine.enter manner frame).answer.fault? := by
    rw [Machine.fault?_enter, Machine.fault?_enter]
    show ((r.machine.stack.map f).limit.refusal? (r.machine.stack.map f).depth).map _ = _
    rw [Stack.depth_map]
    rfl
  unfold Recording.enter
  rw [answer]
  cases (r.machine.enter manner frame).answer.fault? with
  | none => exact .opened moved
  | some fault => exact .skipped moved

/-- **A run commutes with the exchange,** record by record, and ends in the same way. -/
theorem run_exchange (keeps : KeepsNative f) (m : Machine φ) (p : Program (Act φ) (Block φ)) :
    (m.map f).run (p.exchange f) = ((m.run p).1.map f, (m.run p).2) := by
  let exchanged : Host (Act φ) (Block φ) (Recording ψ) :=
    Recording.host.comap (Act.map f) (Block.map f)
  have alike : EndsAlike (fun r' r => r' = r.map f)
      (p.run exchanged { machine := m.map f }) (m.run p) := by
    refine run_alike (h := exchanged) (k := Recording.host) p ?_ ?_ ?_ _ _ rfl
    · rintro a - _ r rfl
      cases a with
      | call c => exact ⟨r.move_map keeps (.call c), rfl⟩
      | fail message => exact ⟨rfl, rfl⟩
      | panic message => exact ⟨rfl, rfl⟩
    · rintro b - _ r rfl
      cases b with
      | enter frame insist forget => exact r.enter_map keeps .reachable frame insist
      | enterHidden frame insist => exact r.enter_map keeps .hidden frame insist
      | attempt => exact .opened rfl
    · rintro b - o _ r rfl
      cases b with
      | enter frame insist forget =>
          refine ⟨?_, rfl⟩
          have exit : (if forget && o = .returned then .forget else .leave : Move ψ)
              = (if forget && o = .returned then .forget else .leave : Move φ).map f := by
            split <;> rfl
          exact (congrArg (r.map f).move exit).trans (r.move_map keeps _)
      | enterHidden frame insist => exact ⟨r.move_map keeps .leave, rfl⟩
      | attempt => exact ⟨rfl, rfl⟩
  have same := run_map Recording.host (Act.map f) (Block.map f) p { machine := m.map f }
  exact same.trans (Prod.ext alike.1 alike.2)

theorem Recording.follow_exchanged (keeps : KeepsNative f) {c : Course φ} {c' : Course ψ}
    (exchanged : Course.Exchanged f c c') :
    ∀ r : Recording φ, (r.map f).follow c' = (r.follow c).map f := by
  induction exchanged with
  | ended => exact fun r => rfl
  | @move mv next next' _ ih =>
      intro r
      have answer : ((r.map f).machine.step (mv.map f)).answer = (r.machine.step mv).answer.map f :=
        congrArg Transition.answer (r.machine.step_map keeps mv)
      rw [Recording.follow, Recording.follow, answer, r.move_map keeps]
      exact ih _ _

/-- **Frames are opaque.** Exchange frames for others in such a way that the sentinel, and no
other frame, becomes the sentinel; different frames may become the same.

* Any program, from any machine, runs with the frames exchanged as it runs without, record by
  record: every frame on the stack, under a guard or in an answer is exchanged, and everything
  else is the same, which is to say every depth, length and fault, whatever is said about native
  code, the log and the outcome.
* So does code that chooses its next move by the answers so far and passes on the frames that it
  was handed, the sentinel among them.
* Runs that are the same but for what the exchange does away with are told apart by nothing
  else. -/
theorem frames_opaque (keeps : KeepsNative f) :
    (∀ (m : Machine φ) (p : Program (Act φ) (Block φ)),
      (m.map f).run (p.exchange f) = ((m.run p).1.map f, (m.run p).2)) ∧
    (∀ (m : Machine φ) (c : Course φ) (c' : Course ψ), Course.Exchanged f c c' →
      Recording.follow { machine := m.map f } c'
        = (Recording.follow { machine := m } c).map f) ∧
    (∀ (m m' : Machine φ) (p p' : Program (Act φ) (Block φ)),
      m.map f = m'.map f → p.exchange f = p'.exchange f →
      (m.run p).2 = (m'.run p').2 ∧ (m.run p).1.map f = (m'.run p').1.map f) := by
  refine ⟨run_exchange keeps, ?_, ?_⟩
  · exact fun m c c' exchanged => Recording.follow_exchanged keeps exchanged { machine := m }
  · intro m m' p p' machines programs
    have same : ((m.run p).1.map f, (m.run p).2) = ((m'.run p').1.map f, (m'.run p').2) := by
      rw [← run_exchange keeps m p, ← run_exchange keeps m' p', machines, programs]
    exact ⟨(Prod.ext_iff.mp same).2, (Prod.ext_iff.mp same).1⟩

end

/-- Makes one frame of all script frames. -/
def merged : Frame → Frame
  | .native => .native
  | .numbered _ => .numbered 0

/-- A body that reaches below the bottom, puts the sentinel on the stack, overwrites the frame of
another body and is then refused an entry. -/
def groping : Program (Act Frame) (Block Frame) :=
  .block (.enter (.numbered 1) true true)
    (.act (.call (.get 7)) <|
      .act (.call (.push .native)) <|
      .act (.call (.set 1 (.numbered 2))) <|
      .act (.call (.isNative .native)) <|
      .block (.enterHidden (.numbered 3) true) .done .done)
    .done

/-- Puts on the stack what it finds at a level. -/
def fetching (level : Nat) : Course Frame :=
  .move (.call (.get level)) (fun
    | .frame found => .move (.call (.push found)) (fun _ => .ended)
    | _ => .ended)

theorem fetching_exchanged (f : Frame → Frame) (level : Nat) :
    Course.Exchanged f (fetching level) (fetching level) := by
  refine .move (fun answer => ?_)
  cases answer with
  | frame found => exact .move (fun _ => .ended)
  | _ => exact .ended

theorem frames_opaque_of_merged :
    let m : Machine Frame := { stack := .ofList { max := some 3 } [.numbered 4] }
    KeepsNative merged ∧
      ((m.map merged).run (groping.exchange merged)).2 = .failed (.refusal (.recursionLimit 3)) ∧
      ((m.map merged).run (groping.exchange merged)).1.history.map
          (fun record => (record.result.machine.stack.toList, record.result.answer.kept)) =
        [([.numbered 0], []), ([.native, .numbered 0, .numbered 0], []),
          ([.native, .numbered 0, .numbered 0], []), ([.native, .numbered 0, .numbered 0], []),
          ([.native, .numbered 0, .numbered 0], []), ([.numbered 0, .numbered 0], [.native]),
          ([.numbered 0, .numbered 0], [])] ∧
      (Recording.follow { machine := m.map merged } (fetching 5)).machine.stack.toList =
        [.native, .numbered 0] := by
  intro m
  have keeps : KeepsNative merged := by
    intro frame
    cases frame with
    | native => exact Iff.rfl
    | numbered index => exact ⟨nofun, nofun⟩
  obtain ⟨programs, courses, -⟩ := frames_opaque keeps
  rw [programs, courses m _ _ (fetching_exchanged merged 5)]
  exact ⟨keeps, by decide, by decide, by decide⟩

end CallPath
