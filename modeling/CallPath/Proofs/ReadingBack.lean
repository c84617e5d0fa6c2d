import CallPath.Proofs.Rendering
import Mathlib.Algebra.GroupWithZero.Nat

/-!
# Reading a trace back

A trace is a header and one line for each frame, and nothing in it is escaped. It can be read
back all the same (`readTrace_traceText`). The header is told by its place and not by what it
says, and of the tabs in a line only the one that opens it is taken off, so a text may be empty,
begin with tabs or look like the header.

What a text must not have in it is a newline. Every newline makes a line
(`length_textLines_traceText`), so one inside a text is a line too many, and if a tab follows
it, nobody can tell it from the end of a frame's line (`traceText_forged`).
-/

namespace CallPath

/-- What stands between the newlines of a text, in order. What comes behind the last newline
is a line only if there is something. -/
def textLines (text : String) : List String :=
  let pieces := List.splitOn '\n' text.toList
  (if pieces.getLast? = some [] then pieces.dropLast else pieces).map String.ofList

/-- How many newlines a text has. -/
def newlines (text : String) : Nat := text.toList.count '\n'

/-- A line without the tab that opens it. -/
def dropTab (line : String) : String :=
  match line.toList with
  | '\t' :: rest => .ofList rest
  | _ => line

/-- The texts of the frames in a trace: its lines, without the header and the tabs. -/
def readTrace (trace : String) : List String := (textLines trace).tail.map dropTab

/-- The texts of the frames on a stack, the topmost first, as far as they have one. -/
def Stack.texts {φ : Type} (text : φ → Option String) (s : Stack φ) : List String :=
  s.toList.filterMap text

/-! ## The lines of a trace -/

/-- Between newlines there is one piece more than there are newlines. -/
theorem length_splitOn_newline (cs : List Char) :
    (List.splitOn '\n' cs).length = cs.count '\n' + 1 := by
  induction cs with
  | nil => rfl
  | cons c rest ih =>
      rw [List.splitOn_eq_splitOnP] at ih ⊢
      rw [List.splitOnP_cons_eq_if_modifyHead, List.count_cons]
      by_cases newline : (c == '\n') = true
      · rw [if_pos newline, if_pos newline, List.length_cons, ih]
      · rw [if_neg newline, if_neg newline, List.length_modifyHead, ih]

/-- The pieces of the line of a frame. There is one if the text of the frame has no newline. -/
def linePieces (text : String) : List (List Char) := List.splitOn '\n' ('\t' :: text.toList)

theorem length_linePieces (text : String) : (linePieces text).length = newlines text + 1 := by
  rw [linePieces, length_splitOn_newline, List.count_cons_of_ne (by decide), newlines]

theorem splitOn_lines (texts : List String) :
    List.splitOn '\n' (String.join (texts.map traceLine)).toList
      = texts.flatMap linePieces ++ [[]] := by
  induction texts with
  | nil => rfl
  | cons text rest ih =>
      have line : (String.join ((text :: rest).map traceLine)).toList
          = ('\t' :: text.toList)
            ++ '\n' :: (String.join (rest.map traceLine)).toList := by
        rw [List.map_cons, String.join_cons, traceLine, String.toList_append,
          String.toList_append, String.toList_append, List.append_assoc]
        rfl
      rw [line, List.splitOn_append_cons_self, ih, List.flatMap_cons, List.append_assoc]
      rfl

/-- The lines of a trace are the header and then the pieces that each frame comes to. -/
theorem textLines_traceText (texts : List String) :
    textLines (traceText texts)
      = "CallStack:" :: (texts.flatMap linePieces).map String.ofList := by
  have header : (traceText texts).toList
      = "CallStack:".toList ++ '\n' :: (String.join (texts.map traceLine)).toList := by
    rw [traceText, String.toList_append]
    rfl
  have pieces : List.splitOn '\n' (traceText texts).toList
      = ("CallStack:".toList :: texts.flatMap linePieces) ++ [[]] := by
    rw [header, List.splitOn_append_cons_self, splitOn_lines,
      List.splitOn_eq_singleton (by decide)]
    rfl
  rw [textLines, pieces]
  simp only [List.getLast?_concat, List.dropLast_concat, if_true, List.map_cons,
    String.ofList_toList]

/-- **Every newline makes a line:** one behind the header, one behind each frame, and those in
the texts. -/
theorem length_textLines_traceText (texts : List String) :
    (textLines (traceText texts)).length
      = 1 + texts.length + (texts.map newlines).sum := by
  have pieces : (texts.flatMap linePieces).length = texts.length + (texts.map newlines).sum := by
    induction texts with
    | nil => rfl
    | cons text rest ih =>
        rw [List.flatMap_cons, List.length_append, length_linePieces, ih, List.length_cons,
          List.map_cons, List.sum_cons]
        omega
  rw [textLines_traceText, List.length_cons, List.length_map, pieces]
  omega

theorem sum_newlines_eq_zero {texts : List String} :
    (texts.map newlines).sum = 0 ↔ ∀ text ∈ texts, '\n' ∉ text.toList := by
  rw [List.sum_eq_zero_iff_forall_eq_nat, List.forall_mem_map]
  exact forall₂_congr (fun _ _ => List.count_eq_zero)

/-! ## Reading -/

theorem dropTab_ofList (rest : List Char) : dropTab (.ofList ('\t' :: rest)) = .ofList rest := by
  simp only [dropTab, String.toList_ofList]

/-- **Reading undoes writing**, if no text has a newline in it. -/
theorem readTrace_traceText {texts : List String} (plain : ∀ text ∈ texts, '\n' ∉ text.toList) :
    readTrace (traceText texts) = texts := by
  have single : ∀ text ∈ texts, linePieces text = [('\t' :: text.toList)] := by
    intro text ht
    refine List.splitOn_eq_singleton (fun newline => ?_)
    rcases List.mem_cons.mp newline with tab | inside
    · exact absurd tab (by decide)
    · exact plain text ht inside
  rw [readTrace, textLines_traceText, List.tail_cons, List.map_map]
  clear plain
  induction texts with
  | nil => rfl
  | cons text rest ih =>
      rw [List.flatMap_cons, single text List.mem_cons_self, List.map_append,
        ih (fun other ho => single other (List.mem_cons_of_mem _ ho))]
      show dropTab (.ofList ('\t' :: text.toList)) :: rest = text :: rest
      rw [dropTab_ofList, String.ofList_toList]

/-- So texts without newlines can be told apart by their traces. -/
theorem traceText_inj {texts texts' : List String} (plain : ∀ text ∈ texts, '\n' ∉ text.toList)
    (plain' : ∀ text ∈ texts', '\n' ∉ text.toList) :
    traceText texts = traceText texts' ↔ texts = texts' := by
  constructor
  · intro same
    rw [← readTrace_traceText plain, same, readTrace_traceText plain']
  · exact congrArg traceText

/-- **A newline forges a line.** A frame whose text has one, and a tab behind it, reads like
two frames. -/
theorem traceText_forged (above below : List String) (first second : String) :
    traceText (above ++ (first ++ "\n\t" ++ second) :: below)
      = traceText (above ++ first :: second :: below) := by
  have lines : traceLine (first ++ "\n\t" ++ second) = traceLine first ++ traceLine second := by
    rw [traceLine, traceLine, traceLine, show "\n\t" = "\n" ++ "\t" from rfl]
    simp only [String.append_assoc]
  rw [traceText, traceText]
  simp only [List.map_append, List.map_cons, String.join_append, String.join_cons]
  rw [lines, String.append_assoc]

/-! ## Stacks -/

section

variable {φ ψ : Type} {text : φ → Option String} {s : Stack φ}

theorem mapM_eq_filterMap {frames : List φ} (shown : ∀ frame ∈ frames, text frame ≠ none) :
    frames.mapM text = some (frames.filterMap text) := by
  induction frames with
  | nil => rfl
  | cons frame rest ih =>
      obtain ⟨line, hl⟩ := Option.ne_none_iff_exists'.mp (shown frame List.mem_cons_self)
      rw [List.mapM_cons, ih (fun other ho => shown other (List.mem_cons_of_mem _ ho)),
        List.filterMap_cons_some hl, hl]
      rfl

theorem Stack.render?_of_shown (shown : ∀ frame ∈ s.toList, text frame ≠ none) :
    s.render? text = some (traceText (s.texts text)) := by
  rw [render?_eq, mapM_eq_filterMap shown]
  rfl

theorem Stack.length_texts (shown : ∀ frame ∈ s.toList, text frame ≠ none) :
    (s.texts text).length = s.depth := by
  rw [← s.length_toList, texts, List.length_filterMap_eq_countP, List.countP_eq_length]
  exact fun frame hf => Option.isSome_iff_ne_none.mpr (shown frame hf)

/-- **A trace can be read back.** Any stack whose frames have texts is rendered, in as many
lines as there are frames, and the header, and newlines in the texts. So there is just a line
for each frame exactly if no text has a newline, and then the texts are read off the lines as
they are, the topmost first. Two stacks like that have one trace exactly if they have the same
texts, whatever kinds of frames they hold. -/
theorem trace_reads_back (text : φ → Option String) (text' : ψ → Option String) (s : Stack φ)
    (t : Stack ψ) (shown : ∀ frame ∈ s.toList, text frame ≠ none)
    (shown' : ∀ frame ∈ t.toList, text' frame ≠ none) :
    ∃ trace trace', s.render? text = some trace ∧ t.render? text' = some trace' ∧
      (textLines trace).length = 1 + s.depth + ((s.texts text).map newlines).sum ∧
      ((textLines trace).tail.length = s.depth ↔ ∀ line ∈ s.texts text, '\n' ∉ line.toList) ∧
      ((∀ line ∈ s.texts text, '\n' ∉ line.toList) →
        (textLines trace).head? = some "CallStack:" ∧ readTrace trace = s.texts text ∧
        ((∀ line ∈ t.texts text', '\n' ∉ line.toList) →
          (trace = trace' ↔ s.texts text = t.texts text'))) := by
  have count := length_textLines_traceText (s.texts text)
  rw [Stack.length_texts shown] at count
  refine ⟨_, _, Stack.render?_of_shown shown, Stack.render?_of_shown shown', count, ?_, ?_⟩
  · rw [← sum_newlines_eq_zero, List.length_tail, count]
    omega
  · intro plain
    refine ⟨?_, readTrace_traceText plain, fun plain' => traceText_inj plain plain'⟩
    rw [textLines_traceText]
    rfl

end

/-- Texts that begin with a tab, are empty or look like the header are read back as they are. -/
theorem reads_back_lookalikes :
    let s : Stack String := .ofList {} ["\t\tb", "", "CallStack:"]
    let t : Stack String := .ofList {} ["\t\tb", "CallStack:", ""]
    (∀ frame ∈ s.toList, some frame ≠ none) ∧ (∀ frame ∈ t.toList, some frame ≠ none) ∧
      ∃ trace trace', s.render? some = some trace ∧ t.render? some = some trace' ∧
        readTrace trace = ["\t\tb", "", "CallStack:"] ∧ trace ≠ trace' := by
  intro s t
  have shown : ∀ frame ∈ s.toList, some frame ≠ none := by simp
  have shown' : ∀ frame ∈ t.toList, some frame ≠ none := by simp
  have plain : ∀ line ∈ s.texts some, '\n' ∉ line.toList := by decide
  have plain' : ∀ line ∈ t.texts some, '\n' ∉ line.toList := by decide
  obtain ⟨trace, trace', hs, ht, -, -, reads⟩ := trace_reads_back some some s t shown shown'
  obtain ⟨-, back, told⟩ := reads plain
  refine ⟨shown, shown', trace, trace', hs, ht, back, fun same => ?_⟩
  exact absurd ((told plain').mp same) (by decide)

end CallPath
