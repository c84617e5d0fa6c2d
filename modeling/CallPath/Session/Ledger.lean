import CallPath.Session.Frame

/-!
# The ledger of handles

For every frame, how many handles to it are out. The ledger never looks at who
holds them: it goes up where a handle is made and down where one is given up, and
that it then agrees with a count of the holders is something to be proved, not
something it checks.

The sentinel starts with one handle, which its owner never gives up.
-/

namespace CallPath

/-- How many handles to each frame are out. -/
structure Ledger where
  counts : Array Nat := #[]
  native : Nat := 1

namespace Ledger

def count (l : Ledger) : Frame → Nat
  | .native => l.native
  | .numbered index => l.counts[index]?.getD 0

/-- Opens an account for the next frame, whose creator holds the only handle. -/
def openAccount (l : Ledger) : Ledger := { l with counts := l.counts.push 1 }

def retain (l : Ledger) : Frame → Ledger
  | .native => { l with native := l.native + 1 }
  | .numbered index => { l with counts := l.counts.modify index (· + 1) }

def release (l : Ledger) : Frame → Ledger
  | .native => { l with native := l.native - 1 }
  | .numbered index => { l with counts := l.counts.modify index (· - 1) }

def retainAll (l : Ledger) (frames : List Frame) : Ledger := frames.foldl retain l

def releaseAll (l : Ledger) (frames : List Frame) : Ledger := frames.foldl release l

/-! ## Counting -/

theorem count_retain {l : Ledger} {frame : Frame} (h : 0 < l.count frame) (other : Frame) :
    (l.retain frame).count other = l.count other + if frame = other then 1 else 0 := by
  cases frame with
  | native => cases other <;> simp [retain, count]
  | numbered i =>
      cases other with
      | native => simp [retain, count]
      | numbered j =>
          simp only [retain, count, Array.getElem?_modify, Frame.numbered.injEq] at h ⊢
          split
          · cases hj : l.counts[j]? with
            | none => simp_all
            | some n => simp
          · simp

theorem count_release (l : Ledger) (frame other : Frame) :
    (l.release frame).count other = l.count other - if frame = other then 1 else 0 := by
  cases frame with
  | native => cases other <;> simp [release, count]
  | numbered i =>
      cases other with
      | native => simp [release, count]
      | numbered j =>
          simp only [release, count, Array.getElem?_modify, Frame.numbered.injEq]
          split
          · cases l.counts[j]? <;> simp
          · simp

/-- Every handle that is made is counted, if it is made from one that is out. -/
theorem count_retainAll {l : Ledger} {frames : List Frame}
    (live : ∀ frame ∈ frames, 0 < l.count frame) (other : Frame) :
    (l.retainAll frames).count other = l.count other + frames.count other := by
  induction frames generalizing l with
  | nil => rfl
  | cons frame rest ih =>
      have first := count_retain (live frame List.mem_cons_self)
      have later : ∀ f ∈ rest, 0 < (l.retain frame).count f := by
        intro f hf
        have before := live f (List.mem_cons_of_mem frame hf)
        rw [first f]
        omega
      show ((l.retain frame).retainAll rest).count other = _
      rw [ih later, first, List.count_cons]
      simp only [beq_iff_eq]
      omega

theorem count_releaseAll (l : Ledger) (frames : List Frame) (other : Frame) :
    (l.releaseAll frames).count other = l.count other - frames.count other := by
  induction frames generalizing l with
  | nil => rfl
  | cons frame rest ih =>
      show ((l.release frame).releaseAll rest).count other = _
      rw [ih, count_release, List.count_cons]
      simp only [beq_iff_eq]
      omega

theorem count_openAccount (l : Ledger) (other : Frame) :
    l.openAccount.count other
      = l.count other + if .numbered l.counts.size = other then 1 else 0 := by
  cases other with
  | native => rfl
  | numbered i =>
      simp only [openAccount, count, Array.getElem?_push, Frame.numbered.injEq]
      by_cases hi : i = l.counts.size
      · simp [hi]
      · simp [hi, Ne.symm hi]

/-! ## Accounts stay open -/

theorem size_retainAll (l : Ledger) (frames : List Frame) :
    (l.retainAll frames).counts.size = l.counts.size := by
  induction frames generalizing l with
  | nil => rfl
  | cons frame rest ih =>
      have first : (l.retain frame).counts.size = l.counts.size := by
        cases frame <;> simp [retain]
      exact (ih (l.retain frame)).trans first

theorem size_releaseAll (l : Ledger) (frames : List Frame) :
    (l.releaseAll frames).counts.size = l.counts.size := by
  induction frames generalizing l with
  | nil => rfl
  | cons frame rest ih =>
      have first : (l.release frame).counts.size = l.counts.size := by
        cases frame <;> simp [release]
      exact (ih (l.release frame)).trans first

end Ledger

end CallPath
