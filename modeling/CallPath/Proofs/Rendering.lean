import CallPath.Stack.Render

/-!
# What a rendered stack says

A sink without a bound takes everything, so only a frame that fails to be displayed can stop
the writing, and what was written by then is lost to whoever asked for the whole text. The
text is there exactly if every frame has one, and then it is the header and a line for each.
-/

namespace CallPath

variable {φ : Type}

/-- The line of a frame. -/
def traceLine (text : String) : String := "\t" ++ text ++ "\n"

/-- The text of a stack whose frames have the given texts. -/
def traceText (texts : List String) : String :=
  Stack.header ++ String.join (texts.map traceLine)

/-- The text in a sink, if all that was meant for it was written. -/
def Sink.whole? : Sink × Bool → Option String
  | (sink, true) => some sink.text
  | (_, false) => none

/-- Frame after frame, a sink without a bound takes the line of each, up to the first that
has no text. -/
theorem Sink.writeAll_lines (text : φ → Option String) (frames : List φ) (written : String) :
    Sink.whole? ((⟨none, written⟩ : Sink).writeAll
        (frames.flatMap (fun frame => [some "\t", text frame, some "\n"])))
      = (frames.mapM text).map (fun texts => written ++ String.join (texts.map traceLine)) := by
  induction frames generalizing written with
  | nil => simp [Sink.writeAll, Sink.whole?]
  | cons frame rest ih =>
      rw [List.flatMap_cons, List.mapM_cons]
      cases text frame with
      | none => rfl
      | some line =>
          refine (ih (written ++ "\t" ++ line ++ "\n")).trans ?_
          cases rest.mapM text with
          | none => rfl
          | some texts =>
              have joined : written ++ "\t" ++ line ++ "\n" ++ String.join (texts.map traceLine)
                  = written ++ String.join ((line :: texts).map traceLine) := by
                rw [List.map_cons, String.join_cons, traceLine]
                simp only [String.append_assoc]
              exact congrArg some joined

/-- **The text of a stack** is the header and the lines of its frames, the topmost first. -/
theorem Stack.render?_eq (text : φ → Option String) (s : Stack φ) :
    s.render? text = (s.toList.mapM text).map traceText := by
  have begun : "" ++ Stack.header = Stack.header := String.empty_append
  have lines := Sink.writeAll_lines text s.toList ("" ++ Stack.header)
  rw [begun] at lines
  exact lines

end CallPath
