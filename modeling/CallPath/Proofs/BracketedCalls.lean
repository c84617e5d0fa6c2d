import CallPath.Proofs.Brackets
import CallPath.Proofs.CallSequences

/-!
# Calls match as brackets do

A stack that is pushed and popped has no notion of which pop belongs to which push. The word of
its calls has (`Paren.Matches`), and the stack keeps to it: a pop that is matched answers with the
frame of its push, whatever happened in between.

The reason is that a balanced sequence gives the stack back (`Stack.after_balanced`), so a pop
meets the very stack that its push left. A pop that is not matched meets no frame of the sequence
at all. Every lone pop takes one more of the frames that were there before, until there are none,
and a pop that is refused matches nothing and is in no later bracket's way.

What is left is therefore said by the word alone (`Stack.toList_after_brackets`): the frames of
lone pushes, on what the lone pops left of the old ones.
-/

namespace CallPath

open Paren

namespace Stack

variable {φ : Type} [Sentinel φ] [DecidableEq φ] {word : List (Paren φ)}

/-- **A balanced sequence gives the stack back.** -/
theorem after_balanced (s : Stack φ) (h : Balanced word) : s.after (word.map Paren.call) = s := by
  induction size : word.length using Nat.strongRecOn generalizing word s with
  | ind n ih =>
      subst size
      rcases h.pair with rfl | ⟨frame, inner, rest, rfl, inside, outside⟩
      · rfl
      · have shorter : inner.length < (opening frame :: (inner ++ closing :: rest)).length ∧
            rest.length < (opening frame :: (inner ++ closing :: rest)).length := by
          simp only [List.length_cons, List.length_append]
          omega
        have popped : (s.push frame).pop? = some (frame, s) :=
          pop?_eq_some.mpr ⟨s.toList_push frame, rfl⟩
        rw [List.map_cons, List.map_append, List.map_cons, after_cons, after_append, after_cons]
        show (((s.push frame).after (inner.map Paren.call)).call .pop).stack.after _ = s
        rw [ih _ shorter.1 _ inside rfl, call_pop_of_some popped, ih _ shorter.2 _ outside rfl]

/-- **What a word of pushes and pops leaves:** the frames that it pushed and left open, on the
frames that were there, without as many from the top as it popped and did not push. -/
theorem toList_after_brackets (s : Stack φ) (word : List (Paren φ)) :
    (s.after (word.map Paren.call)).toList
      = (framesAt word (loneOpenings word)).reverse
          ++ s.toList.drop (loneClosings word).length := by
  induction word using List.reverseRecOn with
  | nil => rfl
  | append_singleton word b ih =>
      rw [List.map_append, List.map_singleton, after_concat]
      cases b with
      | opening frame =>
          rw [framesAt_opening, loneClosings_opening, List.reverse_concat, List.cons_append, ← ih]
          exact toList_push _ frame
      | closing =>
          show ((s.after (word.map Paren.call)).call .pop).stack.toList = _
          rw [toList_call_pop, ih, loneClosings_closing]
          -- the pop takes the last frame that is open, or, if none is, one of the old ones
          rcases List.eq_nil_or_concat (loneOpenings word) with empty | ⟨places, last, split⟩
          · rw [loneOpenings_closing, empty, if_pos rfl, List.length_append, ← List.drop_one,
              ← List.drop_drop]
            rfl
          · rw [List.concat_eq_append] at split
            obtain ⟨frame, top⟩ := framesAt_closing split
            have waiting : loneOpenings word ≠ [] := by
              rw [split]
              exact List.concat_ne_nil _ _
            rw [top, if_neg waiting, List.reverse_concat, List.append_nil]
            rfl

/-! ## What the pops answer -/

/-- **A pop that is matched** answers with the frame of its push. -/
theorem answer_of_matches (s : Stack φ) {i j : Nat} (pair : Matches word i j) :
    ∃ frame, word[i]? = some (opening frame) ∧
      (s.answers (word.map Paren.call))[j]? = some (.frame frame) := by
  obtain ⟨frame, opens⟩ := opens_iff.mp pair.opens
  refine ⟨frame, opens, ?_⟩
  have calls : (word.map Paren.call).take j
      = (word.take i).map Paren.call ++ .push frame ::
          ((word.take j).drop (i + 1)).map Paren.call := by
    have inside : (word.take j)[i]? = some (opening frame) := by
      rw [List.getElem?_take_of_lt pair.before, opens]
    rw [← List.map_take]
    conv_lhs => rw [eq_split inside, List.take_take, Nat.min_eq_left pair.before.le]
    rw [List.map_append, List.map_cons]
    rfl
  rw [getElem?_answers, List.getElem?_map, closes_iff.mp pair.closes, calls, after_append,
    after_cons, after_balanced _ pair.between]
  show some (((s.after _).push frame).call .pop).answer = _
  rw [answer_pop, toList_push]
  rfl

/-- A pop that finds nothing open takes the next of the frames that were there. -/
theorem answer_of_none_open (s : Stack φ) (alone : loneOpenings word = []) :
    ((s.after (word.map Paren.call)).call .pop).answer
      = Answer.ofPop (s.frame? (loneClosings word).length) := by
  rw [answer_pop, toList_after_brackets, alone, frame?_eq, ← List.head?_drop]
  rfl

/-- **A pop that is not matched** takes the next of the frames that were there. -/
theorem answer_of_loneClosings (s : Stack φ) (word : List (Paren φ)) :
    ∀ n j, (loneClosings word)[n]? = some j →
      (s.answers (word.map Paren.call))[j]? = some (Answer.ofPop (s.frame? n)) := by
  induction word using List.reverseRecOn with
  | nil => exact fun n j found => nomatch found
  | append_singleton word b ih =>
      intro n j found
      rw [List.map_append]
      have earlier (old : (loneClosings word)[n]? = some j) :
          (s.answers (word.map Paren.call ++ [b].map Paren.call))[j]?
            = some (Answer.ofPop (s.frame? n)) := by
        have inside : j < (word.map Paren.call).length := by
          rw [List.length_map]
          exact List.mem_range.mp (List.mem_filter.mp (List.mem_of_getElem? old)).1
        rw [getElem?_answers_append s _ inside]
        exact ih n j old
      cases b with
      | opening frame => exact earlier (loneClosings_opening word frame ▸ found)
      | closing =>
          rw [loneClosings_closing] at found
          by_cases alone : loneOpenings word = []
          · rw [if_pos alone] at found
            rcases Nat.lt_trichotomy n (loneClosings word).length with old | rfl | beyond
            · rw [List.getElem?_append_left old] at found
              exact earlier found
            · rw [List.getElem?_concat_length] at found
              cases found
              have last := s.getElem?_answers_concat (word.map Paren.call) .pop
              rw [List.length_map, s.answer_of_none_open alone] at last
              exact last
            · rw [List.getElem?_eq_none (by rw [List.length_append]; exact beyond)] at found
              cases found
          · rw [if_neg alone, List.append_nil] at found
            exact earlier found

end Stack

/-- **Calls match as brackets do.** Take any stack, and any sequence of pushes and pops, read as
opening and closing brackets. A pop that is matched answers with the frame that was pushed at its
match. The pops that are not matched answer one after another with the frames that were there in
the beginning, the top first, and with a fault when there is no more. In the end those are gone
from the top, and on what is left of the old frames lie those of the pushes that are not matched,
in order. So a balanced sequence leaves the stack as it was, and pops alone answer with as many
frames as there are, from the top down, and then with faults. -/
theorem calls_match_as_brackets {φ : Type} [Sentinel φ] [DecidableEq φ] (s : Stack φ)
    (word : List (Paren φ)) :
    let answers := s.answers (word.map Paren.call)
    let after := s.after (word.map Paren.call)
    (∀ i j, Matches word i j →
      ∃ frame, word[i]? = some (opening frame) ∧ answers[j]? = some (.frame frame)) ∧
    (∀ n j, (loneClosings word)[n]? = some j → answers[j]? = some (Answer.ofPop (s.frame? n))) ∧
    (after.toList = (framesAt word (loneOpenings word)).reverse
        ++ s.toList.drop (loneClosings word).length ∧ after.limit = s.limit) ∧
    (Balanced word → after = s) ∧
    ∀ n, s.answers (List.replicate n .pop)
      = (s.toList.take n).map .frame
          ++ List.replicate (n - s.depth) (.fault (.emptyStack "pop")) := by
  have whole : ∀ c ∈ word.map Paren.call, ∀ next, c ≠ .replace next := by
    intro c hc next
    obtain ⟨b, -, rfl⟩ := List.mem_map.mp hc
    cases b <;> exact nofun
  exact ⟨fun _ _ => s.answer_of_matches, s.answer_of_loneClosings word,
    ⟨s.toList_after_brackets word, s.limit_after whole⟩, s.after_balanced, s.answers_pops⟩

/-- A pop with nothing before it, two pushes and their pops, one pop too many, and two pushes of
which one is popped. -/
example :
    let word : List (Paren Nat) :=
      [closing, opening 1, opening 2, closing, closing, closing, opening 3, opening 4, closing]
    loneClosings word = [0, 5] ∧ loneOpenings word = [6] ∧ Matches word 1 4 ∧ Matches word 2 3 := by
  decide

end CallPath
