import Mathlib.Data.String.Basic
import CallPath.Proofs.Rendering
import CallPath.Session.Run

/-!
# What a full sink holds

A stack is written in pieces, a header and three for each frame, and writing can stop inside
any of them: the sink takes whole characters up to the first that does not fit, and a frame
may have no text. Two things could go wrong then. A smaller character could slip in after one
that was turned away, and a sink with less room could hold something else than the front of
what one with more room holds.

Neither happens, because writing piece by piece is writing all at once: one text is written
after another exactly if the first went in whole (`Sink.write_append`), so the pieces come to
one text, cut where a piece is missing (`Sink.writeAll_eq`). What is left is to say what a sink
takes of a single text, and that is an induction over its characters.
-/

namespace CallPath

/-! ## What fits of one text -/

/-- `part` is the longest front of `whole`, in whole characters, that takes `room` bytes at
most. -/
structure LongestFront (room : Nat) (part whole : List Char) : Prop where
  front : part <+: whole
  fits : String.utf8Len part ≤ room
  longest : ∀ other, other <+: whole → String.utf8Len other ≤ room → other <+: part

/-- **A sink takes the longest front** of a text that it has room for. -/
theorem longestFront_fit (room : Nat) (text : List Char) :
    LongestFront room (fit room text).1 text := by
  induction text generalizing room with
  | nil => exact ⟨List.nil_prefix, Nat.zero_le room, fun _ front _ => front⟩
  | cons c rest ih =>
      by_cases hc : c.utf8Size ≤ room
      · have later := ih (room - c.utf8Size)
        rw [fit, if_pos hc]
        refine ⟨(List.prefix_cons_inj c).mpr later.front, ?_, fun other front hle => ?_⟩
        · have := later.fits
          rw [String.utf8Len_cons]
          omega
        · cases other with
          | nil => exact List.nil_prefix
          | cons d more =>
              obtain ⟨rfl, behind⟩ := List.cons_prefix_cons.mp front
              rw [String.utf8Len_cons] at hle
              exact (List.prefix_cons_inj d).mpr (later.longest more behind (by omega))
      · -- the first character is turned away, and no other is tried
        rw [fit, if_neg hc]
        refine ⟨List.nil_prefix, Nat.zero_le room, fun other front hle => ?_⟩
        cases other with
        | nil => exact List.nil_prefix
        | cons d more =>
            obtain ⟨rfl, -⟩ := List.cons_prefix_cons.mp front
            rw [String.utf8Len_cons] at hle
            omega

/-- All of a text goes in exactly if there is room for it. -/
theorem fit_whole {room : Nat} {text : List Char} :
    (fit room text).2 = true ↔ String.utf8Len text ≤ room := by
  induction text generalizing room with
  | nil => simp [fit]
  | cons c rest ih =>
      rw [fit, String.utf8Len_cons]
      by_cases hc : c.utf8Size ≤ room
      · rw [if_pos hc]
        refine ih.trans ?_
        omega
      · rw [if_neg hc]
        simp only [Bool.false_eq_true, false_iff]
        omega

theorem fit_eq_of_whole {room : Nat} {text : List Char} (whole : (fit room text).2 = true) :
    (fit room text).1 = text :=
  have taken := longestFront_fit room text
  taken.front.eq_of_length_le
    (taken.longest text (List.prefix_refl text) (fit_whole.mp whole)).length_le

/-- What follows a text gets the room that the text leaves, if the text went in whole, and is
not looked at otherwise. -/
theorem fit_append (room : Nat) (first second : List Char) :
    fit room (first ++ second)
      = if (fit room first).2 then
          (first ++ (fit (room - String.utf8Len first) second).1,
            (fit (room - String.utf8Len first) second).2)
        else fit room first := by
  induction first generalizing room with
  | nil => rfl
  | cons c rest ih =>
      rw [List.cons_append, fit, fit]
      by_cases hc : c.utf8Size ≤ room
      · rw [if_pos hc, if_pos hc, ih, String.utf8Len_cons, Nat.add_comm, Nat.sub_add_eq]
        by_cases whole : (fit (room - c.utf8Size) rest).2 = true
        · simp only [if_pos whole, List.cons_append]
        · simp only [if_neg whole]
      · simp only [if_neg hc, Bool.false_eq_true, if_false]

/-- A sink with less room takes a front of what one with more room takes. -/
theorem fit_mono {small large : Nat} (h : small ≤ large) (text : List Char) :
    (fit small text).1 <+: (fit large text).1 :=
  have taken := longestFront_fit small text
  (longestFront_fit large text).longest _ taken.front (taken.fits.trans h)

/-! ## One text after another -/

namespace Sink

theorem write_empty (sink : Sink) : sink.write "" = (sink, true) := by
  obtain ⟨_ | capacity, text⟩ := sink
  · simp [write]
  · simp [write, fit]

/-- **Writing two texts** is writing the first and then, if all of it went in, the second. -/
theorem write_append (sink : Sink) (first second : String) :
    sink.write (first ++ second)
      = if (sink.write first).2 then (sink.write first).1.write second
        else sink.write first := by
  obtain ⟨_ | capacity, text⟩ := sink
  · simp only [write, if_true, String.append_assoc]
  · have both := fit_append (capacity - text.utf8ByteSize) first.toList second.toList
    rw [← String.toList_append] at both
    by_cases whole : (fit (capacity - text.utf8ByteSize) first.toList).2 = true
    · rw [if_pos whole, String.utf8Len_toList] at both
      refine Eq.trans ?_ (if_pos whole).symm
      simp only [write, both, fit_eq_of_whole whole, String.ofList_append, String.ofList_toList,
        String.utf8ByteSize_append, Nat.sub_add_eq, String.append_assoc]
    · rw [if_neg whole] at both
      refine Eq.trans ?_ (if_neg whole).symm
      simp only [write, both]

/-- The text that pieces come to, up to the first that is missing. -/
def joined : List (Option String) → String
  | [] | none :: _ => ""
  | some text :: rest => text ++ joined rest

/-- **Writing pieces** is writing the text they come to, and it is all of it if no piece is
missing. -/
theorem writeAll_eq (sink : Sink) (pieces : List (Option String)) :
    sink.writeAll pieces
      = ((sink.write (joined pieces)).1,
          (sink.write (joined pieces)).2 && pieces.all Option.isSome) := by
  induction pieces generalizing sink with
  | nil => rw [joined, write_empty, writeAll, List.all_nil, Bool.and_true]
  | cons piece rest ih =>
      cases piece with
      | none => rw [joined, write_empty, writeAll, List.all_cons, Option.isSome_none,
          Bool.false_and, Bool.and_false]
      | some text =>
          rw [joined, write_append, writeAll]
          cases written : sink.write text with
          | mk next whole => cases whole with
            | true => simpa using ih next
            | false => simp

/-- **Nothing is written after a failure**, whatever else there is to write. -/
theorem writeAll_append_of_stopped {sink : Sink} {before : List (Option String)}
    (stopped : (sink.writeAll before).2 = false) (after : List (Option String)) :
    sink.writeAll (before ++ after) = sink.writeAll before := by
  induction before generalizing sink with
  | nil => cases stopped
  | cons piece rest ih =>
      cases piece with
      | none => rfl
      | some text =>
          rw [List.cons_append, writeAll, writeAll] at *
          cases written : sink.write text with
          | mk next whole => cases whole with
            | true => exact ih (by simpa only [written] using stopped)
            | false => rfl

end Sink

/-! ## Stacks -/

section

variable {φ : Type}

/-- The lines of frames, up to the tab of the first frame that has no text. -/
def linesOf (text : φ → Option String) : List φ → String
  | [] => ""
  | frame :: rest =>
      match text frame with
      | some line => traceLine line ++ linesOf text rest
      | none => "\t"

/-- What there is to write of a stack. -/
def Stack.transcript (text : φ → Option String) (s : Stack φ) : String :=
  Stack.header ++ linesOf text s.toList

theorem joined_pieces (text : φ → Option String) (s : Stack φ) :
    Sink.joined (s.pieces text) = s.transcript text := by
  have lines (frames : List φ) :
      Sink.joined (frames.flatMap (fun frame => [some "\t", text frame, some "\n"]))
        = linesOf text frames := by
    induction frames with
    | nil => rfl
    | cons frame rest ih =>
        rw [List.flatMap_cons, linesOf]
        cases text frame with
        | none => exact String.append_empty
        | some line =>
            show "\t" ++ (line ++ ("\n" ++ Sink.joined (rest.flatMap _))) = traceLine line ++ _
            rw [ih, traceLine, String.append_assoc, String.append_assoc]
  exact congrArg (Stack.header ++ ·) (lines s.toList)

theorem all_pieces (text : φ → Option String) (s : Stack φ) :
    (s.pieces text).all Option.isSome = s.toList.all (fun frame => (text frame).isSome) := by
  rw [Stack.pieces, List.all_cons, Option.isSome_some, Bool.true_and, List.all_flatMap]
  congr 1
  funext frame
  simp

/-- A stack goes into a sink as one text does. -/
theorem Stack.renderInto_eq (text : φ → Option String) (s : Stack φ) (sink : Sink) :
    s.renderInto text sink
      = ((sink.write (s.transcript text)).1,
          (sink.write (s.transcript text)).2
            && s.toList.all (fun frame => (text frame).isSome)) := by
  rw [renderInto, Sink.writeAll_eq, joined_pieces, all_pieces]

/-- What a bounded sink holds after the stack was written, and whether all of it was. -/
theorem Stack.renderInto_bounded (text : φ → Option String) (s : Stack φ) (capacity : Nat) :
    s.renderInto text { capacity := some capacity }
      = ({ capacity := some capacity
           text := .ofList (fit capacity (s.transcript text).toList).1 },
          (fit capacity (s.transcript text).toList).2
            && s.toList.all (fun frame => (text frame).isSome)) := by
  rw [renderInto_eq, Sink.write]
  simp only [String.utf8ByteSize_empty, Nat.sub_zero, String.empty_append]

/-- The whole text of a stack is its transcript, unless a frame cut it short. -/
theorem Stack.render?_eq_transcript (text : φ → Option String) (s : Stack φ) :
    s.render? text
      = if s.toList.all (fun frame => (text frame).isSome) then some (s.transcript text)
        else none := by
  rw [render?, renderInto_eq, Sink.write]
  cases s.toList.all (fun frame => (text frame).isSome) with
  | true => exact congrArg some String.empty_append
  | false => rfl

theorem Stack.render?_eq_none {text : φ → Option String} {s : Stack φ} :
    s.render? text = none ↔ ∃ frame ∈ s.toList, text frame = none := by
  rw [render?_eq_transcript]
  simp

/-- How a stack is written, into sinks with a bound and as one text. -/
structure Stack.WritesTranscript (text : φ → Option String) (s : Stack φ) : Prop where
  /-- A sink ends up with as much of the transcript as it has room for, -/
  front : ∀ capacity, LongestFront capacity
    (s.renderInto text { capacity := some capacity }).1.text.toList (s.transcript text).toList
  /-- which is everything exactly if no frame fails and there is room for all of it. -/
  whole : ∀ capacity, (s.renderInto text { capacity := some capacity }).2 = true ↔
    (∀ frame ∈ s.toList, text frame ≠ none) ∧ (s.transcript text).utf8ByteSize ≤ capacity
  /-- After the first failure nothing is written, -/
  stops : ∀ capacity before after, s.pieces text = before ++ after →
    (Sink.writeAll { capacity := some capacity } before).2 = false →
    s.renderInto text { capacity := some capacity }
      = Sink.writeAll { capacity := some capacity } before
  /-- and with less room the same text is only cut earlier. -/
  grows : ∀ small large, small ≤ large →
    (s.renderInto text { capacity := some small }).1.text.toList
      <+: (s.renderInto text { capacity := some large }).1.text.toList
  /-- There is no text exactly if a frame fails, -/
  missing : s.render? text = none ↔ ∃ frame ∈ s.toList, text frame = none
  /-- and otherwise it is the transcript. -/
  present : ∀ rendered, s.render? text = some rendered → rendered = s.transcript text

theorem Stack.writesTranscript (text : φ → Option String) (s : Stack φ) :
    s.WritesTranscript text where
  front capacity := by
    rw [renderInto_bounded, String.toList_ofList]
    exact longestFront_fit capacity _
  whole capacity := by
    rw [renderInto_bounded, Bool.and_eq_true, fit_whole, String.utf8Len_toList, and_comm,
      List.all_eq_true]
    simp only [Option.isSome_iff_ne_none]
  stops capacity before after split stopped := by
    rw [renderInto, split]
    exact Sink.writeAll_append_of_stopped stopped after
  grows small large h := by
    rw [renderInto_bounded, renderInto_bounded, String.toList_ofList, String.toList_ofList]
    exact fit_mono h _
  missing := render?_eq_none
  present rendered h := by
    rw [render?_eq_transcript] at h
    split at h
    · exact (Option.some.inj h).symm
    · cases h

end

/-! ## Sessions -/

/-- The commands that write out the stack. -/
def Command.renders : Command → Bool
  | .render | .renderInto _ | .fail _ => true
  | _ => false

namespace Session

/-- A session later on, if nothing happened in it that is more than a note. -/
def OnlyNoted (s next : Session) : Prop := ∃ log steps, next = { s with log, steps }

theorem onlyNoted_step (s : Session) (name : String) (result : Result) :
    s.OnlyNoted (s.step name result) := ⟨[], _, rfl⟩

theorem OnlyNoted.act {c : Command} (s : Session) (h : c.renders = true) :
    s.OnlyNoted (s.act c).1 := by
  cases c with
  | render =>
      rw [Session.act]
      split
      · exact s.onlyNoted_step _ _
      · exact ⟨s.log, s.steps, rfl⟩
  | renderInto capacity => exact s.onlyNoted_step _ _
  | fail message =>
      rw [Session.act]
      split
      · exact s.onlyNoted_step _ _
      · exact ⟨s.log, s.steps, rfl⟩
  | _ => cases h

/-- A frame that fails is the end of a script that shows the stack. -/
theorem act_render_crashed {s : Session} :
    (s.act .render).2 = .crashed
      ↔ ∃ frame ∈ s.machine.stack.toList, s.registry.text? frame = none := by
  rw [← Stack.render?_eq_none, act]
  cases s.machine.stack.render? s.registry.text? <;> simp

end Session

/-- **Rendering stops for good at the first failure.** A sink holds as much of the text as it
has room for, and whoever asks for the whole text gets it unless a frame fails. In a session
nothing but the notes about it changes. -/
theorem rendering_stops_for_good {φ : Type} (text : φ → Option String) (s : Stack φ) :
    s.WritesTranscript text ∧
      ∀ session : Session,
        (∀ c : Command, c.renders = true → session.OnlyNoted (session.act c).1) ∧
          ((session.act .render).2 = .crashed
            ↔ ∃ frame ∈ session.machine.stack.toList, session.registry.text? frame = none) :=
  ⟨s.writesTranscript text, fun session =>
    ⟨fun _ h => .act session h, Session.act_render_crashed⟩⟩

/-- An accented letter takes two bytes, and the one byte left is not given to the next letter. -/
example :
    Stack.renderInto (fun t : String => some t) (.ofList {} ["abé", "x"]) { capacity := some 15 }
      = ({ capacity := some 15, text := "CallStack:\n\tab" }, false) := by
  decide

end CallPath
