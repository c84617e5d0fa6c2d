import CallPath.Call
import Mathlib.Data.List.Basic

/-!
# Calls one after another

A sequence of calls on one stack leaves a stack behind and has an answer for each call. The
answer to a call depends on nothing but the stack it meets, which is what the calls before it
left (`getElem?_answers`), so statements about sequences are proved call by call from the front or
from the back.

The plainest sequences are pops alone and pushes alone: pops answer with the frames from the top
down and then with nothing but faults, and pushes put frames on top in reverse.
-/

namespace CallPath

variable {φ : Type}

/-- What a pop answers that finds a frame, or none. -/
def Answer.ofPop : Option φ → Answer φ
  | some top => .frame top
  | none => .fault (.emptyStack "pop")

namespace Stack

variable [Sentinel φ] [DecidableEq φ]

/-- The stack that calls leave. -/
def after (s : Stack φ) (calls : List (Call φ)) : Stack φ :=
  calls.foldl (fun s c => (s.call c).stack) s

/-- The answers to calls, in order. -/
def answers (s : Stack φ) : List (Call φ) → List (Answer φ)
  | [] => []
  | c :: rest => (s.call c).answer :: (s.call c).stack.answers rest

theorem after_cons (s : Stack φ) (c : Call φ) (rest : List (Call φ)) :
    s.after (c :: rest) = (s.call c).stack.after rest := rfl

theorem after_append (s : Stack φ) (calls more : List (Call φ)) :
    s.after (calls ++ more) = (s.after calls).after more := List.foldl_append

theorem after_concat (s : Stack φ) (calls : List (Call φ)) (c : Call φ) :
    s.after (calls ++ [c]) = ((s.after calls).call c).stack := List.foldl_concat ..

theorem answers_append (s : Stack φ) (calls more : List (Call φ)) :
    s.answers (calls ++ more) = s.answers calls ++ (s.after calls).answers more := by
  induction calls generalizing s with
  | nil => rfl
  | cons c rest ih => exact congrArg (_ :: ·) (ih _)

theorem length_answers (s : Stack φ) (calls : List (Call φ)) :
    (s.answers calls).length = calls.length := by
  induction calls generalizing s with
  | nil => rfl
  | cons c rest ih => exact congrArg Nat.succ (ih _)

/-- **A call is answered by the stack that the calls before it left.** -/
theorem getElem?_answers (s : Stack φ) (calls : List (Call φ)) (k : Nat) :
    (s.answers calls)[k]?
      = calls[k]?.map (fun c => ((s.after (calls.take k)).call c).answer) := by
  induction calls generalizing s k with
  | nil => rfl
  | cons c rest ih =>
      cases k with
      | zero => rfl
      | succ k => exact ih (s.call c).stack k

/-- Later calls change no earlier answer. -/
theorem getElem?_answers_append (s : Stack φ) {calls : List (Call φ)} (more : List (Call φ))
    {k : Nat} (h : k < calls.length) :
    (s.answers (calls ++ more))[k]? = (s.answers calls)[k]? := by
  rw [answers_append, List.getElem?_append_left (by rwa [length_answers])]

theorem getElem?_answers_concat (s : Stack φ) (calls : List (Call φ)) (c : Call φ) :
    (s.answers (calls ++ [c]))[calls.length]? = some ((s.after calls).call c).answer := by
  rw [getElem?_answers, List.getElem?_concat_length, List.take_left]
  rfl

/-- No call but a replacement touches the limit. -/
theorem limit_after (s : Stack φ) {calls : List (Call φ)}
    (whole : ∀ c ∈ calls, ∀ next, c ≠ .replace next) : (s.after calls).limit = s.limit := by
  induction calls generalizing s with
  | nil => rfl
  | cons c rest ih =>
      rw [after_cons, ih _ (fun c hc => whole c (List.mem_cons_of_mem _ hc)),
        limit_call (whole c List.mem_cons_self)]

/-! ## Pops alone and pushes alone -/

theorem answer_pop (s : Stack φ) : (s.call .pop).answer = .ofPop s.toList.head? := by
  cases hs : s.pop? with
  | none =>
      rw [call_pop_of_none hs, pop?_eq_none.mp hs]
      rfl
  | some popped =>
      rw [call_pop_of_some hs, (pop?_eq_some.mp hs).1]
      rfl

theorem toList_after_pops (s : Stack φ) (n : Nat) :
    (s.after (List.replicate n .pop)).toList = s.toList.drop n := by
  induction n generalizing s with
  | zero => rfl
  | succ n ih => rw [List.replicate_succ, after_cons, ih, toList_call_pop, List.drop_tail]

/-- **Pops answer with the frames from the top down,** and with faults when there are no more. -/
theorem answers_pops (s : Stack φ) (n : Nat) :
    s.answers (List.replicate n .pop)
      = (s.toList.take n).map .frame
          ++ List.replicate (n - s.depth) (.fault (.emptyStack "pop")) := by
  induction n generalizing s with
  | zero =>
      rw [Nat.zero_sub]
      rfl
  | succ n ih =>
      have first : s.answers (List.replicate (n + 1) .pop)
          = .ofPop s.toList.head? :: (s.call .pop).stack.answers (List.replicate n .pop) :=
        congrArg (· :: _) s.answer_pop
      rw [first, ih, toList_call_pop, depth_call_pop, ← length_toList]
      cases s.toList with
      | nil =>
          rw [List.tail_nil, List.take_nil, List.take_nil]
          rfl
      | cons top below =>
          rw [List.tail_cons, List.take_succ_cons, List.length_cons, Nat.add_sub_cancel,
            Nat.add_sub_add_right]
          rfl

theorem toList_after_pushes (s : Stack φ) (frames : List φ) :
    (s.after (frames.map .push)).toList = frames.reverse ++ s.toList := by
  induction frames generalizing s with
  | nil => rfl
  | cons frame rest ih =>
      rw [List.map_cons, after_cons, ih, List.reverse_cons, List.append_assoc]
      exact congrArg (_ ++ ·) (s.toList_push frame)

end Stack

end CallPath
