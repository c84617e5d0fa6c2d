import CallPath.Proofs.TopFirst
import CallPath.Session.Frame

/-!
# Nothing is lost between two ends

A cursor can be asked for frames from the top and from the bottom, one at a time or past any
number that are skipped, and it can be cloned in between. The reference here is the plain step.
A skip stands for a number of plain steps (`Cursor.skipTop_eq_steps`), so whatever a cursor was
asked for, the frames that it has given away at either end are those that plain steps would have
given away.

Seen in this way nothing can be lost where the two ends meet: what was taken from the top, what
is still to come and what was taken from the bottom are at all times the whole stack, in order
(`Visit.all_call`). That holds for every clone as well, and a clone goes its own way.
-/

namespace CallPath

variable {φ : Type}

/-! ## Plain steps -/

/-- The frames that `n` steps yield one after another, and the cursor after them. -/
def Cursor.steps (step : Cursor φ → Option φ × Cursor φ) : Nat → Cursor φ → List φ × Cursor φ
  | 0, it => ([], it)
  | n + 1, it =>
      ((step it).1.toList ++ (steps step n (step it).2).1, (steps step n (step it).2).2)

/-- How many plain steps from the top a call stands for. -/
def CursorCall.fromTop : CursorCall → Nat
  | takeTop => 1
  | skipTop k => k + 1
  | _ => 0

/-- How many plain steps from the bottom a call stands for. -/
def CursorCall.fromBottom : CursorCall → Nat
  | takeBottom => 1
  | skipBottom k => k + 1
  | _ => 0

namespace Cursor

theorem ext_ends {a b : Cursor φ} (frames : a.frames = b.frames) (lo : a.lo = b.lo)
    (hi : a.hi = b.hi) : a = b := by
  cases a
  cases b
  cases frames
  cases lo
  cases hi
  rfl

variable (it : Cursor φ)

theorem takeTop_eq : it.takeTop.1 = it.remaining.head? ∧
    it.takeTop.2.remaining = it.remaining.tail := by
  obtain ⟨answer, left⟩ := it.call_onList .takeTop
  exact ⟨CursorAnswer.frame.inj answer, left⟩

theorem takeBottom_eq : it.takeBottom.1 = it.remaining.getLast? ∧
    it.takeBottom.2.remaining = it.remaining.dropLast := by
  obtain ⟨answer, left⟩ := it.call_onList .takeBottom
  exact ⟨CursorAnswer.frame.inj answer, left⟩

/-- What steps from the top take and what they leave is what there was. -/
theorem steps_takeTop (n : Nat) :
    (steps takeTop n it).1 ++ (steps takeTop n it).2.remaining = it.remaining := by
  induction n generalizing it with
  | zero => rfl
  | succ n ih =>
      obtain ⟨taken, left⟩ := it.takeTop_eq
      rw [steps, List.append_assoc, ih, taken, left]
      cases it.remaining <;> rfl

/-- What steps from the bottom leave and what they take, put back in order, is what there was. -/
theorem steps_takeBottom (n : Nat) :
    (steps takeBottom n it).2.remaining ++ (steps takeBottom n it).1.reverse = it.remaining := by
  induction n generalizing it with
  | zero => exact List.append_nil _
  | succ n ih =>
      obtain ⟨taken, left⟩ := it.takeBottom_eq
      rw [steps, List.reverse_append, ← List.append_assoc, ih, taken, left]
      cases hl : it.remaining.getLast? with
      | none =>
          rw [List.getLast?_eq_none_iff.mp hl]
          rfl
      | some last => exact List.dropLast_append_getLast? last hl

/-! ## A skip is so many plain steps, and one more -/

theorem ends_takeTop : it.takeTop.2.frames = it.frames ∧ it.takeTop.2.lo = it.lo ∧
    it.takeTop.2.hi = max it.lo (it.hi - 1) := by
  have ordered := it.lo_le_hi
  unfold takeTop
  split
  · refine ⟨rfl, rfl, ?_⟩
    show it.hi - 1 = _
    omega
  · refine ⟨rfl, rfl, ?_⟩
    show it.hi = _
    omega

theorem ends_skipTop (k : Nat) : (it.skipTop k).2.frames = it.frames ∧
    (it.skipTop k).2.lo = it.lo ∧ (it.skipTop k).2.hi = max it.lo (it.hi - (k + 1)) := by
  unfold skipTop
  split
  · refine ⟨rfl, rfl, ?_⟩
    show it.hi - 1 - k = _
    omega
  · refine ⟨rfl, rfl, ?_⟩
    show it.lo = _
    omega

theorem ends_takeBottom : it.takeBottom.2.frames = it.frames ∧
    it.takeBottom.2.lo = min it.hi (it.lo + 1) ∧ it.takeBottom.2.hi = it.hi := by
  have ordered := it.lo_le_hi
  unfold takeBottom
  split
  · refine ⟨rfl, ?_, rfl⟩
    show it.lo + 1 = _
    omega
  · refine ⟨rfl, ?_, rfl⟩
    show it.lo = _
    omega

theorem ends_skipBottom (k : Nat) : (it.skipBottom k).2.frames = it.frames ∧
    (it.skipBottom k).2.lo = min it.hi (it.lo + (k + 1)) ∧ (it.skipBottom k).2.hi = it.hi := by
  unfold skipBottom
  split
  · refine ⟨rfl, ?_, rfl⟩
    show it.lo + k + 1 = _
    omega
  · refine ⟨rfl, ?_, rfl⟩
    show it.hi = _
    omega

theorem skipTop_zero : it.skipTop 0 = it.takeTop := by
  obtain ⟨frames, lo, hi⟩ := it.ends_skipTop 0
  obtain ⟨frames', lo', hi'⟩ := it.ends_takeTop
  exact Prod.ext it.takeTop_eq_skipTop.1.symm
    (ext_ends (frames.trans frames'.symm) (lo.trans lo'.symm) (hi.trans hi'.symm))

theorem skipBottom_zero : it.skipBottom 0 = it.takeBottom := by
  obtain ⟨frames, lo, hi⟩ := it.ends_skipBottom 0
  obtain ⟨frames', lo', hi'⟩ := it.ends_takeBottom
  exact Prod.ext it.takeBottom_eq_skipBottom.1.symm
    (ext_ends (frames.trans frames'.symm) (lo.trans lo'.symm) (hi.trans hi'.symm))

theorem skipTop_succ (k : Nat) : it.skipTop (k + 1) = it.takeTop.2.skipTop k := by
  obtain ⟨frames, lo, hi⟩ := it.ends_skipTop (k + 1)
  obtain ⟨frames', lo', hi'⟩ := it.takeTop.2.ends_skipTop k
  obtain ⟨framesFirst, loFirst, hiFirst⟩ := it.ends_takeTop
  refine Prod.ext ?_ (ext_ends ?_ ?_ ?_)
  · rw [(it.skipTop_eq (k + 1)).1, (it.takeTop.2.skipTop_eq k).1, it.takeTop_eq.2,
      List.getElem?_tail]
  · rw [frames, frames', framesFirst]
  · rw [lo, lo', loFirst]
  · rw [hi, hi', loFirst, hiFirst]
    omega

theorem skipBottom_succ (k : Nat) : it.skipBottom (k + 1) = it.takeBottom.2.skipBottom k := by
  obtain ⟨frames, lo, hi⟩ := it.ends_skipBottom (k + 1)
  obtain ⟨frames', lo', hi'⟩ := it.takeBottom.2.ends_skipBottom k
  obtain ⟨framesFirst, loFirst, hiFirst⟩ := it.ends_takeBottom
  refine Prod.ext ?_ (ext_ends ?_ ?_ ?_)
  · rw [(it.skipBottom_eq (k + 1)).1, (it.takeBottom.2.skipBottom_eq k).1, it.takeBottom_eq.2,
      ← List.tail_reverse, List.getElem?_tail]
  · rw [frames, frames', framesFirst]
  · rw [lo, lo', hiFirst, loFirst]
    omega
  · rw [hi, hi', hiFirst]

theorem skipTop_eq_steps (k : Nat) : it.skipTop k = (steps takeTop k it).2.takeTop := by
  induction k generalizing it with
  | zero => exact it.skipTop_zero
  | succ k ih => exact (it.skipTop_succ k).trans (ih _)

theorem skipBottom_eq_steps (k : Nat) : it.skipBottom k = (steps takeBottom k it).2.takeBottom := by
  induction k generalizing it with
  | zero => exact it.skipBottom_zero
  | succ k ih => exact (it.skipBottom_succ k).trans (ih _)

theorem steps_succ (step : Cursor φ → Option φ × Cursor φ) (n : Nat) :
    (steps step (n + 1) it).2 = (step (steps step n it).2).2 := by
  induction n generalizing it with
  | zero => rfl
  | succ n ih => exact ih (step it).2

/-- **A call leaves the cursor where its plain steps leave it.** -/
theorem call_eq_steps (c : CursorCall) :
    (it.call c).2
      = (steps takeBottom c.fromBottom (steps takeTop c.fromTop it).2).2 := by
  cases c with
  | skipTop k =>
      show (it.skipTop k).2 = (steps takeTop (k + 1) it).2
      rw [steps_succ, skipTop_eq_steps]
  | skipBottom k =>
      show (it.skipBottom k).2 = (steps takeBottom (k + 1) it).2
      rw [steps_succ, skipBottom_eq_steps]
  | _ => rfl

/-- A cursor with nothing to come stays where it is, whatever it is asked for. -/
theorem call_exhausted (h : it.remaining = []) (c : CursorCall) : (it.call c).2 = it := by
  have empty : ¬ it.lo < it.hi := by
    have length := it.length_remaining
    rw [h] at length
    unfold Cursor.length at length
    simp only [List.length_nil] at length
    omega
  have top : it.takeTop.2 = it := by
    unfold takeTop
    rw [dif_neg empty]
  have bottom : it.takeBottom.2 = it := by
    unfold takeBottom
    rw [dif_neg empty]
  have idle : ∀ (step : Cursor φ → Option φ × Cursor φ), (step it).2 = it →
      ∀ n, (steps step n it).2 = it := by
    intro step stays n
    induction n with
    | zero => rfl
    | succ n ih => rw [steps_succ, ih, stays]
  rw [call_eq_steps, idle takeTop top, idle takeBottom bottom]

/-- What a cursor does when it is asked, told by what is still to come. -/
structure Exact : Prop where
  takeTop : it.takeTop.1 = it.remaining.head? ∧ it.takeTop.2.remaining = it.remaining.tail
  takeBottom : it.takeBottom.1 = it.remaining.getLast? ∧
    it.takeBottom.2.remaining = it.remaining.dropLast
  skipTop : ∀ k, it.skipTop k = (steps Cursor.takeTop k it).2.takeTop
  skipBottom : ∀ k, it.skipBottom k = (steps Cursor.takeBottom k it).2.takeBottom
  tooFar : ∀ k, it.remaining.length ≤ k →
    (it.skipTop k).1 = none ∧ (it.skipTop k).2.remaining = [] ∧
      (it.skipBottom k).1 = none ∧ (it.skipBottom k).2.remaining = []
  length : it.call .length = (.number it.remaining.length, it)
  bounds : it.call .bounds = (.bounds it.remaining.length it.remaining.length, it)
  /-- Since the cursor stays as it is, this goes on for ever. -/
  exhausted : it.remaining = [] → ∀ c : CursorCall,
    (it.call c).2 = it ∧ (0 < c.fromTop + c.fromBottom → (it.call c).1 = .frame none)

theorem exact_of_any : it.Exact where
  takeTop := it.takeTop_eq
  takeBottom := it.takeBottom_eq
  skipTop := it.skipTop_eq_steps
  skipBottom := it.skipBottom_eq_steps
  tooFar k short := by
    obtain ⟨top, above⟩ := it.skipTop_eq k
    obtain ⟨bottom, below⟩ := it.skipBottom_eq k
    refine ⟨?_, ?_, ?_, ?_⟩
    · rw [top, List.getElem?_eq_none short]
    · rw [above, List.drop_of_length_le (Nat.le_succ_of_le short)]
    · rw [bottom, List.getElem?_eq_none (by rwa [List.length_reverse])]
    · rw [below, ← it.length_remaining, Nat.sub_eq_zero_of_le (Nat.le_succ_of_le short),
        List.take_zero]
  length := by
    rw [it.length_remaining]
    rfl
  bounds := by
    rw [it.length_remaining]
    rfl
  exhausted none c := by
    refine ⟨it.call_exhausted none c, fun taking => ?_⟩
    have answer := (it.call_onList c).1
    rw [none] at answer
    rw [answer]
    cases c with
    | takeTop | takeBottom | skipTop k | skipBottom k => rfl
    | _ => exact absurd taking (Nat.lt_irrefl 0)

end Cursor

/-! ## What was taken, what is to come, and what was taken -/

/-- A cursor with all that it has given away so far. -/
structure Visit (φ : Type) where
  cursor : Cursor φ
  /-- The frames taken from the top, in order. -/
  above : List φ := []
  /-- The frames taken from the bottom, in order. -/
  below : List φ := []

/-- All frames of a visit, those that were taken and those that are still to come. -/
def Visit.all (v : Visit φ) : List φ := v.above ++ v.cursor.remaining ++ v.below.reverse

/-- Calls the cursor, and notes the frames that plain steps in the place of the call yield. -/
def Visit.call (v : Visit φ) (c : CursorCall) : Visit φ :=
  let top := Cursor.steps Cursor.takeTop c.fromTop v.cursor
  let bottom := Cursor.steps Cursor.takeBottom c.fromBottom top.2
  { cursor := (v.cursor.call c).2, above := v.above ++ top.1, below := v.below ++ bottom.1 }

/-- **No call loses a frame or takes one twice.** -/
theorem Visit.all_call (v : Visit φ) (c : CursorCall) : (v.call c).all = v.all := by
  let top := Cursor.steps Cursor.takeTop c.fromTop v.cursor
  let bottom := Cursor.steps Cursor.takeBottom c.fromBottom top.2
  have upper : top.1 ++ top.2.remaining = v.cursor.remaining := v.cursor.steps_takeTop _
  have lower : bottom.2.remaining ++ bottom.1.reverse = top.2.remaining :=
    top.2.steps_takeBottom _
  calc (v.call c).all
      = v.above ++ top.1 ++ (v.cursor.call c).2.remaining ++ (v.below ++ bottom.1).reverse := rfl
    _ = v.above ++ top.1 ++ bottom.2.remaining ++ (v.below ++ bottom.1).reverse := by
        rw [v.cursor.call_eq_steps]
    _ = v.above ++ (top.1 ++ (bottom.2.remaining ++ bottom.1.reverse)) ++ v.below.reverse := by
        simp only [List.reverse_append, List.append_assoc]
    _ = v.all := by rw [lower, upper, Visit.all]

/-! ## Clones -/

/-- What can be done with cursors that came out of one another. -/
inductive CursorUse where
  | call (i : Nat) (c : CursorCall)
  /-- Clones a cursor; the clone is put behind the others. -/
  | clone (i : Nat)

def CursorUse.apply (visits : List (Visit φ)) : CursorUse → List (Visit φ)
  | call i c => visits.modify i (fun v => v.call c)
  | clone i => visits ++ visits[i]?.toList

section

variable {visits : List (Visit φ)}

theorem CursorUse.mem_apply {use : CursorUse} {v : Visit φ} (h : v ∈ use.apply visits) :
    ∃ u ∈ visits, v.all = u.all := by
  cases use with
  | call i c =>
      obtain ⟨j, hj⟩ := List.mem_iff_getElem?.mp h
      rw [apply, List.getElem?_modify] at hj
      obtain ⟨u, hu, rfl⟩ := Option.map_eq_some_iff.mp hj
      refine ⟨u, List.mem_of_getElem? hu, ?_⟩
      split
      · exact u.all_call c
      · rfl
  | clone i =>
      rcases List.mem_append.mp h with h | h
      · exact ⟨v, h, rfl⟩
      · exact ⟨v, List.mem_of_getElem? (Option.mem_toList.mp h), rfl⟩

/-- Whatever is done to cursors and their clones, each of them accounts for the same frames. -/
theorem CursorUse.all_of_mem (uses : List CursorUse) {l : List φ} :
    ∀ {visits : List (Visit φ)}, (∀ v ∈ visits, v.all = l) →
      ∀ v ∈ uses.foldl apply visits, v.all = l := by
  induction uses with
  | nil => exact fun h => h
  | cons use uses ih =>
      intro visits h
      refine ih (fun v hv => ?_)
      obtain ⟨u, hu, same⟩ := mem_apply hv
      exact same.trans (h u hu)

/-- A cursor that is not called stays as it is, whatever happens to its clones. -/
theorem CursorUse.getElem?_of_not_called {i : Nat} (uses : List CursorUse) :
    ∀ {visits : List (Visit φ)}, (∀ c, CursorUse.call i c ∉ uses) → i < visits.length →
      (uses.foldl apply visits)[i]? = visits[i]? := by
  induction uses with
  | nil => exact fun _ _ => rfl
  | cons use uses ih =>
      intro visits untouched inside
      have kept : (use.apply visits)[i]? = visits[i]? := by
        cases use with
        | call j c =>
            have other : j ≠ i := by
              rintro rfl
              exact untouched c List.mem_cons_self
            rw [apply, List.getElem?_modify_ne _ _ other]
        | clone j => exact List.getElem?_append_left inside
      obtain ⟨there, -⟩ :=
        List.getElem?_eq_some_iff.mp (kept.trans (List.getElem?_eq_getElem inside))
      exact (ih (fun c hc => untouched c (List.mem_cons_of_mem use hc)) there).trans kept

end

/-- The level of the `i`-th frame that a source offers. -/
def Source.level (i : Nat) : Source → Nat
  | .whole => i
  | .callers => i + 1

/-- **Nothing is lost or repeated between the two ends.** Take a cursor over a stack or over its
callers, and do with it and its clones whatever can be done, in any order.

* For each of them, the frames taken from the top, those still to come and those taken from the
  bottom, the latter in reverse, are all the frames there are.
* Each of them does what it should for what is still to come.
* To use some of them leaves the others as they are, and a clone begins as the one it came from.
* The frame at position `i` from the top is the one that is read at its level. -/
theorem both_ends_account_for_all [Sentinel φ] (s : Stack φ) (source : Source)
    (uses : List CursorUse) :
    let visits := uses.foldl CursorUse.apply [{ cursor := source.cursor s }]
    (∀ v ∈ visits, v.above ++ v.cursor.remaining ++ v.below.reverse = source.frames s.toList) ∧
    (∀ v ∈ visits, v.cursor.Exact) ∧
    (∀ more : List CursorUse, ∀ i < visits.length, (∀ c, CursorUse.call i c ∉ more) →
      (more.foldl CursorUse.apply visits)[i]? = visits[i]?) ∧
    (∀ i < visits.length,
      ((CursorUse.clone i).apply visits)[visits.length]? = visits[i]?) ∧
    (∀ i, ((source.cursor s).skipTop i).1
      = if source.level i < s.depth then some (s.get (source.level i)) else none) := by
  intro visits
  refine ⟨?_, fun v _ => v.cursor.exact_of_any, ?_, ?_, ?_⟩
  · have begun : ∀ v ∈ [({ cursor := source.cursor s } : Visit φ)],
        v.all = source.frames s.toList := by
      intro v hv
      rw [List.mem_singleton.mp hv, ← Source.remaining_cursor]
      exact List.append_nil _
    exact CursorUse.all_of_mem uses begun
  · exact fun more i inside untouched => CursorUse.getElem?_of_not_called more untouched inside
  · intro i inside
    rw [CursorUse.apply, List.getElem?_append_right (Nat.le_refl _), Nat.sub_self,
      List.getElem?_eq_getElem inside]
    rfl
  · intro i
    have entry : (source.frames s.toList)[i]? = s.frame? (source.level i) := by
      rw [Stack.frame?_eq]
      cases source with
      | whole => rfl
      | callers => exact List.getElem?_tail
    rw [(Cursor.skipTop_eq _ i).1, Source.remaining_cursor, entry, Stack.get]
    split
    · rename_i inside
      cases hf : s.frame? (source.level i) with
      | none => exact absurd (Stack.frame?_eq_none.mp hf) (Nat.not_le.mpr inside)
      | some frame => rfl
    · rename_i outside
      exact Stack.frame?_eq_none.mpr (Nat.le_of_not_lt outside)

/-- A cursor is taken over two frames from the top; its clone takes one from the bottom and then
asks for more than there is. -/
def meeting : List CursorUse :=
  [.call 0 (.skipTop 1), .clone 0, .call 1 .takeBottom, .call 1 (.skipBottom 7)]

theorem both_ends_of_meeting :
    let s : Stack Frame :=
      .ofList {} [.numbered 4, .numbered 3, .numbered 2, .numbered 1, .numbered 0]
    let visits := meeting.foldl CursorUse.apply [{ cursor := Source.callers.cursor s }]
    visits.map (fun v => (v.above, v.cursor.remaining, v.below)) =
        [([.numbered 3, .numbered 2], [.numbered 1, .numbered 0], []),
          ([.numbered 3, .numbered 2], [], [.numbered 0, .numbered 1])] ∧
      (∀ v ∈ visits, v.above ++ v.cursor.remaining ++ v.below.reverse =
        [.numbered 3, .numbered 2, .numbered 1, .numbered 0]) ∧
      ([CursorUse.call 1 .takeTop, .clone 1].foldl CursorUse.apply visits)[0]? = visits[0]? ∧
      ((Source.callers.cursor s).skipTop 3).1 = some (.numbered 0) := by
  intro s visits
  obtain ⟨all, -, apart, -, level⟩ := both_ends_account_for_all s .callers meeting
  have untouched : ∀ c, CursorUse.call 0 c ∉ [CursorUse.call 1 .takeTop, .clone 1] := by
    intro c hc
    simp at hc
  refine ⟨by decide, all, apart _ 0 (by decide) untouched, ?_⟩
  rw [level 3]
  decide

end CallPath
