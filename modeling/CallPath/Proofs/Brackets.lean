import CallPath.Call
import Mathlib.Combinatorics.Enumerative.DyckWord

/-!
# Pushes and pops as brackets

A sequence of pushes and pops is a word of opening and closing brackets. Which bracket closes
which is a matter of the word alone: a closing bracket matches an opening one if what stands
between them is balanced, and the balanced words are the Dyck words. No stack is needed to say so.

A bracket that matches none is lone. Which ones these are can be told from the front, one bracket
at a time. An opening bracket stays open for now, and a closing one closes the last one that is
open, or is lone if none is (`loneOpenings_opening`, `loneOpenings_closing`,
`loneClosings_closing`). That it is the last one takes an argument in both directions
(`getLast?_loneOpenings`). Behind the bracket that it closes all is balanced, so nothing is open
there; and behind the last one that is open all is balanced, because a word that closes too much
has a first place where it does (`exists_first_outward`), and one that opens too much opens a
bracket that is never closed (`exists_never_closed`).
-/

namespace CallPath

variable {φ : Type}

/-- A push or a pop. -/
inductive Paren (φ : Type) where
  | opening (frame : φ)
  | closing

namespace Paren

def call : Paren φ → Call φ
  | opening frame => .push frame
  | closing => .pop

def frame? : Paren φ → Option φ
  | opening frame => some frame
  | closing => none

def step : Paren φ → DyckStep
  | opening _ => .U
  | closing => .D

/-! ## Balanced words -/

/-- A word in which every bracket has its counterpart. -/
def Balanced (word : List (Paren φ)) : Prop :=
  ∃ dyck : DyckWord, dyck.toList = word.map step

/-- How many more brackets of a word are opening than closing. -/
def surplus (word : List (Paren φ)) : Int :=
  (word.map step).count .U - (word.map step).count .D

/-- A word that closes nothing but what it opened. -/
def Inward (word : List (Paren φ)) : Prop := ∀ k, 0 ≤ surplus (word.take k)

section

variable {word inner rest : List (Paren φ)} {frame : φ}

@[simp]
theorem surplus_nil : surplus ([] : List (Paren φ)) = 0 := rfl

@[simp]
theorem surplus_append (word rest : List (Paren φ)) :
    surplus (word ++ rest) = surplus word + surplus rest := by
  simp only [surplus, List.map_append, List.count_append]
  omega

@[simp]
theorem surplus_opening : surplus (opening frame :: word) = surplus word + 1 := by
  have ups : ((opening frame :: word).map step).count .U = (word.map step).count .U + 1 :=
    List.count_cons_self
  have downs : ((opening frame :: word).map step).count .D = (word.map step).count .D :=
    List.count_cons_of_ne (by decide : DyckStep.U ≠ DyckStep.D)
  rw [surplus, surplus, ups, downs]
  omega

@[simp]
theorem surplus_closing : surplus (closing :: word) = surplus word - 1 := by
  have ups : ((closing :: word).map step).count .U = (word.map step).count .U :=
    List.count_cons_of_ne (by decide : DyckStep.D ≠ DyckStep.U)
  have downs : ((closing :: word).map step).count .D = (word.map step).count .D + 1 :=
    List.count_cons_self
  rw [surplus, surplus, ups, downs]
  omega

theorem balanced_iff : Balanced word ↔ surplus word = 0 ∧ Inward word := by
  constructor
  · rintro ⟨dyck, toList⟩
    refine ⟨?_, fun k => ?_⟩
    · rw [surplus, ← toList, dyck.count_U_eq_count_D, Int.sub_self]
    · have front := dyck.count_D_le_count_U k
      rw [surplus, List.map_take, ← toList]
      omega
  · rintro ⟨equal, inward⟩
    refine ⟨⟨word.map step, by rw [surplus] at equal; omega, fun k => ?_⟩, rfl⟩
    have front := inward k
    rw [surplus, List.map_take] at front
    omega

theorem inward_iff_lt : Inward word ↔ ∀ k < word.length + 1, 0 ≤ surplus (word.take k) := by
  refine ⟨fun h k _ => h k, fun h k => ?_⟩
  by_cases short : k < word.length + 1
  · exact h k short
  · have whole := h word.length (Nat.lt_succ_self _)
    rw [List.take_length] at whole
    rwa [List.take_of_length_le (by omega)]

instance (word : List (Paren φ)) : Decidable (Inward word) := decidable_of_iff _ inward_iff_lt.symm

instance (word : List (Paren φ)) : Decidable (Balanced word) := decidable_of_iff _ balanced_iff.symm

theorem Balanced.inward (h : Balanced word) : Inward word := (balanced_iff.mp h).2

theorem Balanced.surplus_eq (h : Balanced word) : surplus word = 0 := (balanced_iff.mp h).1

theorem Inward.of_append (h : Inward (word ++ rest)) : 0 ≤ surplus word := by
  have front := h word.length
  rwa [List.take_left' rfl] at front

theorem Inward.surplus_nonneg (h : Inward word) : 0 ≤ surplus word := by
  have whole := h word.length
  rwa [List.take_length] at whole

/-- A bracket that is closed behind a balanced word was opened before it. -/
theorem Balanced.not_inward (h : Balanced inner) : ¬ Inward (inner ++ closing :: rest) := by
  intro inward
  rw [List.append_cons] at inward
  have front := inward.of_append
  rw [surplus_append, surplus_closing, surplus_nil, h.surplus_eq] at front
  omega

theorem inward_concat (b : Paren φ) :
    Inward (word ++ [b]) ↔ Inward word ∧ 0 ≤ surplus (word ++ [b]) := by
  constructor
  · intro inward
    refine ⟨fun k => ?_, inward.surplus_nonneg⟩
    by_cases short : k ≤ word.length
    · have front : (word ++ [b]).take k = word.take k := List.take_append_of_le_length short
      rw [← front]
      exact inward k
    · rw [List.take_of_length_le (by omega)]
      exact inward.of_append
  · rintro ⟨inward, whole⟩ k
    by_cases short : k ≤ word.length
    · rw [List.take_append_of_le_length short]
      exact inward k
    · rwa [List.take_of_length_le]
      rw [List.length_append, List.length_singleton]
      omega

theorem inward_opening : Inward (word ++ [opening frame]) ↔ Inward word := by
  rw [inward_concat]
  refine and_iff_left_of_imp (fun inward => ?_)
  have nonneg := inward.surplus_nonneg
  rw [surplus_append, surplus_opening, surplus_nil]
  omega

theorem inward_closing : Inward (word ++ [closing]) ↔ Inward word ∧ ¬ Balanced word := by
  rw [inward_concat, balanced_iff]
  refine and_congr_right (fun inward => ?_)
  have nonneg := inward.surplus_nonneg
  rw [surplus_append, surplus_closing, surplus_nil, and_iff_left inward]
  omega

/-- A balanced word is empty or begins with a pair of brackets. -/
theorem Balanced.pair (h : Balanced word) :
    word = [] ∨ ∃ frame inner rest, word = opening frame :: (inner ++ closing :: rest) ∧
      Balanced inner ∧ Balanced rest := by
  obtain ⟨dyck, toList⟩ := h
  by_cases zero : dyck = 0
  · rw [zero] at toList
    exact .inl (List.map_eq_nil_iff.mp toList.symm)
  · have split : dyck.toList
        = .U :: (dyck.insidePart.toList ++ .D :: dyck.outsidePart.toList) := by
      have parts : (dyck.insidePart.nest + dyck.outsidePart).toList
          = ([.U] ++ dyck.insidePart.toList ++ [.D]) ++ dyck.outsidePart.toList := rfl
      rw [DyckWord.nest_insidePart_add_outsidePart zero] at parts
      simpa using parts
    obtain ⟨first, rest, rfl, up, tail⟩ := List.map_eq_cons_iff.mp (toList.symm.trans split)
    obtain ⟨inner, others, rfl, inside, tail⟩ := List.map_eq_append_iff.mp tail
    obtain ⟨last, rest, rfl, down, outside⟩ := List.map_eq_cons_iff.mp tail
    cases first with
    | closing => cases up
    | opening frame =>
        cases last with
        | opening frame => cases down
        | closing => exact .inr ⟨frame, inner, rest, rfl, ⟨_, inside.symm⟩, ⟨_, outside.symm⟩⟩

/-- **A word that is not inward** closes one bracket too many at a first place, and up to there
it is balanced. -/
theorem exists_first_outward (h : ¬ Inward word) :
    ∃ inner rest, word = inner ++ closing :: rest ∧ Balanced inner := by
  have outward : ∃ k, surplus (word.take k) < 0 := by
    obtain ⟨k, less⟩ := not_forall.mp h
    exact ⟨k, Int.not_le.mp less⟩
  have least := Nat.find_spec outward
  have before : ∀ k < Nat.find outward, 0 ≤ surplus (word.take k) :=
    fun k less => Int.not_lt.mp (Nat.find_min outward less)
  generalize Nat.find outward = n at least before
  cases n with
  | zero => exact absurd least (Int.lt_irrefl 0)
  | succ n =>
      have fits := before n (Nat.lt_succ_self n)
      have inside : n < word.length := by
        refine Nat.lt_of_not_le (fun long => ?_)
        rw [List.take_of_length_le (by omega)] at least
        rw [List.take_of_length_le long] at fits
        omega
      rw [List.take_succ_eq_append_getElem inside, surplus_append] at least
      cases letter : word[n] with
      | opening frame =>
          rw [letter, surplus_opening, surplus_nil] at least
          omega
      | closing =>
          rw [letter, surplus_closing, surplus_nil] at least
          refine ⟨word.take n, word.drop (n + 1), ?_, balanced_iff.mpr ⟨by omega, fun k => ?_⟩⟩
          · rw [← letter, List.cons_getElem_drop_succ, List.take_append_drop]
          · rw [List.take_take]
            exact before _ (by omega)

/-- **A word that opens more than it closes** opens a bracket that is never closed. -/
theorem exists_never_closed (more : 0 < surplus word) :
    ∃ front frame rest, word = front ++ opening frame :: rest ∧ Inward rest := by
  induction size : word.length using Nat.strongRecOn generalizing word with
  | ind n ih =>
      subst size
      cases word with
      | nil => exact absurd more (Int.lt_irrefl 0)
      | cons first rest =>
          cases first with
          | closing =>
              rw [surplus_closing] at more
              obtain ⟨front, frame, back, rfl, inward⟩ :=
                ih rest.length (Nat.lt_succ_self _) (by omega) rfl
              exact ⟨closing :: front, frame, back, rfl, inward⟩
          | opening frame =>
              by_cases inward : Inward rest
              · exact ⟨[], frame, rest, rfl, inward⟩
              · -- this one is closed, so there is another one behind the bracket that closes it
                obtain ⟨inner, others, rfl, inside⟩ := exists_first_outward inward
                have later : 0 < surplus others := by
                  rw [surplus_opening, surplus_append, surplus_closing, inside.surplus_eq] at more
                  omega
                have shorter : others.length
                    < (opening frame :: (inner ++ closing :: others)).length := by
                  simp only [List.length_cons, List.length_append]
                  omega
                obtain ⟨front, other, back, rfl, stays⟩ := ih others.length shorter later rfl
                refine ⟨opening frame :: (inner ++ closing :: front), other, back, ?_, stays⟩
                simp only [List.cons_append, List.append_assoc]

end

/-! ## Which bracket closes which -/

/-- The bracket at `j` closes the one at `i`: what stands between them is balanced. -/
structure Matches (word : List (Paren φ)) (i j : Nat) : Prop where
  opens : word[i]?.map step = some .U
  closes : word[j]?.map step = some .D
  before : i < j
  between : Balanced ((word.take j).drop (i + 1))

instance (word : List (Paren φ)) (i j : Nat) : Decidable (Matches word i j) :=
  decidable_of_iff
    (word[i]?.map step = some .U ∧ word[j]?.map step = some .D ∧ i < j ∧
      Balanced ((word.take j).drop (i + 1)))
    ⟨fun ⟨opens, closes, before, between⟩ => ⟨opens, closes, before, between⟩,
      fun ⟨opens, closes, before, between⟩ => ⟨opens, closes, before, between⟩⟩

/-- The bracket at `j` is a closing one and closes none. -/
def LoneClosing (word : List (Paren φ)) (j : Nat) : Prop :=
  word[j]?.map step = some .D ∧ ∀ i < j, ¬ Matches word i j

/-- The bracket at `i` is an opening one and none closes it. -/
def LoneOpening (word : List (Paren φ)) (i : Nat) : Prop :=
  word[i]?.map step = some .U ∧ ∀ j < word.length, ¬ Matches word i j

instance (word : List (Paren φ)) : DecidablePred (LoneClosing word) :=
  fun _ => inferInstanceAs (Decidable (_ ∧ _))

instance (word : List (Paren φ)) : DecidablePred (LoneOpening word) :=
  fun _ => inferInstanceAs (Decidable (_ ∧ _))

/-- Where the closing brackets stand that close none, in order. -/
def loneClosings (word : List (Paren φ)) : List Nat :=
  (List.range word.length).filter (LoneClosing word ·)

/-- Where the opening brackets stand that none closes, in order. -/
def loneOpenings (word : List (Paren φ)) : List Nat :=
  (List.range word.length).filter (LoneOpening word ·)

/-- The frames that are pushed by the brackets at some places. -/
def framesAt (word : List (Paren φ)) (places : List Nat) : List φ :=
  places.filterMap (fun i => word[i]?.bind frame?)

section

variable {word inner rest : List (Paren φ)} {frame : φ} {i j k : Nat} {places : List Nat}

theorem opens_iff {b : Option (Paren φ)} :
    b.map step = some .U ↔ ∃ frame, b = some (opening frame) := by
  rcases b with _ | ⟨frame | _⟩ <;> simp [step]

theorem closes_iff {b : Option (Paren φ)} : b.map step = some .D ↔ b = some closing := by
  rcases b with _ | ⟨frame | _⟩ <;> simp [step]

theorem eq_split {b : Paren φ} (h : word[i]? = some b) :
    word = word.take i ++ b :: word.drop (i + 1) := by
  obtain ⟨inside, rfl⟩ := List.getElem?_eq_some_iff.mp h
  rw [List.cons_getElem_drop_succ, List.take_append_drop]

/-- Behind an opening bracket stands what is balanced, and then the bracket that closes it. -/
theorem Matches.drop_eq (h : Matches word i j) :
    word.drop (i + 1) = (word.take j).drop (i + 1) ++ closing :: word.drop (j + 1) := by
  have closes := closes_iff.mp h.closes
  obtain ⟨bound, -⟩ := List.getElem?_eq_some_iff.mp closes
  conv_lhs => rw [eq_split closes]
  refine List.drop_append_of_le_length ?_
  rw [List.length_take, Nat.min_eq_left bound.le]
  exact h.before

theorem matches_of_split (opens : word[i]?.map step = some .U)
    (split : word.drop (i + 1) = inner ++ closing :: rest) (inside : Balanced inner) :
    Matches word i (i + 1 + inner.length) where
  opens := opens
  closes := by
    rw [← List.getElem?_drop, split, List.getElem?_append_right (Nat.le_refl _), Nat.sub_self]
    rfl
  before := by omega
  between := by
    rwa [List.drop_take, split, Nat.add_sub_cancel_left, List.take_left' rfl]

/-- An opening bracket stays open if what follows closes nothing but its own. -/
theorem loneOpening_iff :
    LoneOpening word i ↔ word[i]?.map step = some .U ∧ Inward (word.drop (i + 1)) := by
  constructor
  · rintro ⟨opens, alone⟩
    refine ⟨opens, Decidable.not_not.mp (fun outward => ?_)⟩
    obtain ⟨inner, rest, split, inside⟩ := exists_first_outward outward
    have closed := matches_of_split opens split inside
    obtain ⟨bound, -⟩ := List.getElem?_eq_some_iff.mp (closes_iff.mp closed.closes)
    exact alone _ bound closed
  · rintro ⟨opens, inward⟩
    refine ⟨opens, fun j _ pair => ?_⟩
    rw [pair.drop_eq] at inward
    exact pair.between.not_inward inward

theorem mem_loneOpenings : i ∈ loneOpenings word ↔ LoneOpening word i := by
  rw [loneOpenings, List.mem_filter, List.mem_range, decide_eq_true_iff]
  refine and_iff_right_of_imp (fun lone => ?_)
  obtain ⟨frame, opens⟩ := opens_iff.mp lone.1
  exact (List.getElem?_eq_some_iff.mp opens).1

/-! ## What a bracket at the end closes -/

/-- The bracket at `i` is the one that a closing bracket at the end of the word would close. -/
def Awaits (word : List (Paren φ)) (i : Nat) : Prop :=
  word[i]?.map step = some .U ∧ Balanced (word.drop (i + 1))

theorem matches_concat : Matches (word ++ [closing]) i word.length ↔ Awaits word i := by
  constructor
  · rintro ⟨opens, -, before, between⟩
    rw [List.getElem?_append_left before] at opens
    rw [List.take_left] at between
    exact ⟨opens, between⟩
  · rintro ⟨opens, between⟩
    obtain ⟨frame, here⟩ := opens_iff.mp opens
    obtain ⟨before, -⟩ := List.getElem?_eq_some_iff.mp here
    refine ⟨?_, ?_, before, ?_⟩
    · rwa [List.getElem?_append_left before]
    · rw [List.getElem?_concat_length]
      rfl
    · rwa [List.take_left]

theorem Awaits.lone (h : Awaits word i) : LoneOpening word i :=
  loneOpening_iff.mpr ⟨h.1, h.2.inward⟩

/-- **It is the last one that is open.** Behind it there is none, because all is balanced there. -/
theorem Awaits.le (h : Awaits word i) (lone : LoneOpening word k) : k ≤ i := by
  obtain ⟨opens, inward⟩ := loneOpening_iff.mp lone
  obtain ⟨frame, opens⟩ := opens_iff.mp opens
  refine Nat.le_of_not_lt (fun later => ?_)
  obtain ⟨n, rfl⟩ : ∃ n, k = i + 1 + n := Nat.exists_eq_add_of_le later
  have inside : (word.drop (i + 1))[n]? = some (opening frame) := by
    rwa [List.getElem?_drop]
  have split := eq_split inside
  rw [List.drop_drop, ← Nat.add_assoc] at split
  obtain ⟨equal, front⟩ := balanced_iff.mp h.2
  have back := inward.surplus_nonneg
  rw [split] at equal front
  have front := front.of_append
  rw [surplus_append, surplus_opening] at equal
  omega

/-- And the last one that is open is it, because whatever comes behind is closed there. -/
theorem awaits_of_last (lone : LoneOpening word i) (last : ∀ k, LoneOpening word k → k ≤ i) :
    Awaits word i := by
  obtain ⟨opens, inward⟩ := loneOpening_iff.mp lone
  refine ⟨opens, balanced_iff.mpr ⟨?_, inward⟩⟩
  refine Int.le_antisymm (Int.not_lt.mp (fun more => ?_)) inward.surplus_nonneg
  obtain ⟨front, frame, rest, split, stays⟩ := exists_never_closed more
  have later : LoneOpening word (i + 1 + front.length) := by
    refine loneOpening_iff.mpr ⟨?_, ?_⟩
    · rw [← List.getElem?_drop, split, List.getElem?_append_right (Nat.le_refl _), Nat.sub_self]
      rfl
    · rw [Nat.add_assoc, ← List.drop_drop, split, ← List.drop_drop, List.drop_left]
      exact stays
  have := last _ later
  omega

theorem getLast?_loneOpenings : (loneOpenings word).getLast? = some i ↔ Awaits word i := by
  have found : ∀ {i}, (loneOpenings word).getLast? = some i → Awaits word i := by
    intro i last
    obtain ⟨front, split⟩ := List.getLast?_eq_some_iff.mp last
    have sorted : (loneOpenings word).Pairwise (· < ·) := List.pairwise_lt_range.filter _
    rw [split, List.pairwise_append] at sorted
    refine awaits_of_last (mem_loneOpenings.mp (split ▸ List.mem_concat_self)) (fun k lone => ?_)
    have there := mem_loneOpenings.mpr lone
    rw [split] at there
    rcases List.mem_append.mp there with earlier | same
    · exact (sorted.2.2 k earlier i List.mem_cons_self).le
    · exact (List.mem_singleton.mp same).le
  refine ⟨found, fun awaits => ?_⟩
  cases last : (loneOpenings word).getLast? with
  | none =>
      have none_open := List.getLast?_eq_none_iff.mp last
      exact absurd (mem_loneOpenings.mpr awaits.lone) (none_open ▸ List.not_mem_nil)
  | some k =>
      have other := found last
      exact congrArg some (Nat.le_antisymm (awaits.le other.lone) (other.le awaits.lone))

/-! ## One bracket more -/

theorem loneClosing_append (h : j < word.length) (rest : List (Paren φ)) :
    LoneClosing (word ++ rest) j ↔ LoneClosing word j := by
  have there : (word ++ rest)[j]? = word[j]? := List.getElem?_append_left h
  have front : (word ++ rest).take j = word.take j := List.take_append_of_le_length h.le
  have same : ∀ i < j, Matches (word ++ rest) i j ↔ Matches word i j := by
    intro i before
    have here : (word ++ rest)[i]? = word[i]? := List.getElem?_append_left (before.trans h)
    constructor
    · rintro ⟨opens, closes, -, between⟩
      rw [here] at opens
      rw [there] at closes
      rw [front] at between
      exact ⟨opens, closes, before, between⟩
    · rintro ⟨opens, closes, -, between⟩
      rw [← here] at opens
      rw [← there] at closes
      rw [← front] at between
      exact ⟨opens, closes, before, between⟩
  rw [LoneClosing, LoneClosing, there]
  exact and_congr_right' (forall₂_congr (fun i before => (same i before).not))

theorem loneClosings_concat (word : List (Paren φ)) (b : Paren φ) :
    loneClosings (word ++ [b]) = loneClosings word ++
      if LoneClosing (word ++ [b]) word.length then [word.length] else [] := by
  rw [loneClosings, List.length_append, List.length_singleton, List.range_succ,
    List.filter_append, List.filter_singleton]
  congr 1
  · exact List.filter_congr (fun j hj => decide_eq_decide.mpr
      (loneClosing_append (List.mem_range.mp hj) [b]))
  · simp only [decide_eq_true_iff, cond_eq_ite]

/-- An opening bracket closes nothing. -/
theorem loneClosings_opening (word : List (Paren φ)) (frame : φ) :
    loneClosings (word ++ [opening frame]) = loneClosings word := by
  have other : ¬ LoneClosing (word ++ [opening frame]) word.length := by
    rintro ⟨closes, -⟩
    rw [List.getElem?_concat_length] at closes
    cases closes
  rw [loneClosings_concat, if_neg other, List.append_nil]

/-- A closing bracket is alone if none is open. -/
theorem loneClosings_closing (word : List (Paren φ)) :
    loneClosings (word ++ [closing]) = loneClosings word ++
      if loneOpenings word = [] then [word.length] else [] := by
  have alone : LoneClosing (word ++ [closing]) word.length ↔ loneOpenings word = [] := by
    rw [LoneClosing, List.getElem?_concat_length, ← List.getLast?_eq_none_iff,
      Option.eq_none_iff_forall_ne_some]
    constructor
    · rintro ⟨-, alone⟩ i last
      have pair := matches_concat.mpr (getLast?_loneOpenings.mp last)
      exact alone i pair.before pair
    · intro none_open
      refine ⟨rfl, fun i _ pair => none_open i ?_⟩
      exact getLast?_loneOpenings.mpr (matches_concat.mp pair)
  rw [loneClosings_concat]
  simp only [alone]

theorem loneOpening_opening (h : i < word.length) (frame : φ) :
    LoneOpening (word ++ [opening frame]) i ↔ LoneOpening word i := by
  have more : word.drop (i + 1) ++ [opening frame] = (word ++ [opening frame]).drop (i + 1) :=
    (List.drop_append_of_le_length h).symm
  rw [loneOpening_iff, loneOpening_iff, List.getElem?_append_left h, ← more, inward_opening]

/-- A closing bracket closes the one that awaits it and no other. -/
theorem loneOpening_closing (h : i < word.length) :
    LoneOpening (word ++ [closing]) i ↔ LoneOpening word i ∧ ¬ Awaits word i := by
  have more : word.drop (i + 1) ++ [closing] = (word ++ [closing]).drop (i + 1) :=
    (List.drop_append_of_le_length h).symm
  rw [loneOpening_iff, loneOpening_iff, List.getElem?_append_left h, ← more, inward_closing,
    Awaits]
  constructor
  · rintro ⟨opens, inward, unbalanced⟩
    exact ⟨⟨opens, inward⟩, fun awaits => unbalanced awaits.2⟩
  · rintro ⟨⟨opens, inward⟩, other⟩
    exact ⟨opens, inward, fun balanced => other ⟨opens, balanced⟩⟩

theorem loneOpenings_concat {b : Paren φ}
    (older : ∀ i < word.length, LoneOpening (word ++ [b]) i → LoneOpening word i) :
    loneOpenings (word ++ [b]) = (loneOpenings word).filter (LoneOpening (word ++ [b]) ·) ++
      if LoneOpening (word ++ [b]) word.length then [word.length] else [] := by
  have kept : (List.range word.length).filter (LoneOpening (word ++ [b]) ·)
      = (loneOpenings word).filter (LoneOpening (word ++ [b]) ·) := by
    rw [loneOpenings, List.filter_filter]
    refine List.filter_congr (fun i hi => ?_)
    rw [← Bool.decide_and, decide_eq_decide]
    exact (and_iff_left_of_imp (older i (List.mem_range.mp hi))).symm
  rw [loneOpenings, List.length_append, List.length_singleton, List.range_succ,
    List.filter_append, List.filter_singleton, kept]
  simp only [decide_eq_true_iff, cond_eq_ite]

theorem lt_of_mem_loneOpenings (h : i ∈ loneOpenings word) : i < word.length :=
  List.mem_range.mp (List.mem_filter.mp h).1

/-- An opening bracket is open. -/
theorem loneOpenings_opening (word : List (Paren φ)) (frame : φ) :
    loneOpenings (word ++ [opening frame]) = loneOpenings word ++ [word.length] := by
  have new : LoneOpening (word ++ [opening frame]) word.length := by
    rw [loneOpening_iff, List.getElem?_concat_length,
      List.drop_of_length_le (by rw [List.length_append, List.length_singleton])]
    exact ⟨rfl, fun k => by rw [List.take_nil]; exact Int.le_refl 0⟩
  rw [loneOpenings_concat (fun i hi => (loneOpening_opening hi frame).mp), if_pos new,
    List.filter_eq_self.mpr]
  intro i there
  exact decide_eq_true ((loneOpening_opening (lt_of_mem_loneOpenings there) frame).mpr
    (mem_loneOpenings.mp there))

/-- Of places that are all different, those other than the last are all but the last. -/
theorem filter_getLast?_ne {places : List Nat} (once : places.Nodup) :
    places.filter (fun i => places.getLast? ≠ some i) = places.dropLast := by
  rcases List.eq_nil_or_concat places with rfl | ⟨front, last, rfl⟩
  · rfl
  · rw [List.concat_eq_append] at once ⊢
    rw [List.getLast?_concat, List.dropLast_concat, List.filter_append, List.filter_eq_self.mpr,
      List.filter_singleton, decide_eq_false (not_not_intro rfl)]
    · exact List.append_nil front
    · intro i there
      have distinct := (List.nodup_append.mp once).2.2 i there last List.mem_cons_self
      exact decide_eq_true (fun same => distinct (Option.some.inj same).symm)

/-- A closing bracket closes the last one that is open. -/
theorem loneOpenings_closing (word : List (Paren φ)) :
    loneOpenings (word ++ [closing]) = (loneOpenings word).dropLast := by
  have new : ¬ LoneOpening (word ++ [closing]) word.length := by
    rintro ⟨opens, -⟩
    rw [List.getElem?_concat_length] at opens
    cases opens
  have left : ∀ i ∈ loneOpenings word,
      LoneOpening (word ++ [closing]) i ↔ (loneOpenings word).getLast? ≠ some i := by
    intro i there
    rw [loneOpening_closing (lt_of_mem_loneOpenings there), Ne, getLast?_loneOpenings]
    exact and_iff_right (mem_loneOpenings.mp there)
  rw [loneOpenings_concat (fun i hi h => ((loneOpening_closing hi).mp h).1), if_neg new,
    List.append_nil, List.filter_congr (fun i hi => decide_eq_decide.mpr (left i hi))]
  exact filter_getLast?_ne (List.nodup_range.filter _)

/-! ## Frames that are still open -/

theorem framesAt_concat {places : List Nat} (inside : ∀ i ∈ places, i < word.length)
    (b : Paren φ) : framesAt (word ++ [b]) places = framesAt word places :=
  List.filterMap_congr (fun i hi => by rw [List.getElem?_append_left (inside i hi)])

theorem framesAt_append (word : List (Paren φ)) (places more : List Nat) :
    framesAt word (places ++ more) = framesAt word places ++ framesAt word more :=
  List.filterMap_append

theorem framesAt_singleton (here : word[i]? = some (opening frame)) :
    framesAt word [i] = [frame] :=
  List.filterMap_cons_some (by rw [here]; rfl)

theorem framesAt_opening (word : List (Paren φ)) (frame : φ) :
    framesAt (word ++ [opening frame]) (loneOpenings (word ++ [opening frame]))
      = framesAt word (loneOpenings word) ++ [frame] := by
  rw [loneOpenings_opening, framesAt_append, framesAt_singleton List.getElem?_concat_length,
    framesAt_concat (fun _ => lt_of_mem_loneOpenings)]

/-- The last frame that is still open is given up by a closing bracket, the others are not. -/
theorem framesAt_closing (split : loneOpenings word = places ++ [i]) :
    ∃ frame, framesAt word (loneOpenings word)
      = framesAt (word ++ [closing]) (loneOpenings (word ++ [closing])) ++ [frame] := by
  have inside : ∀ k ∈ places, k < word.length :=
    fun k hk => lt_of_mem_loneOpenings (split ▸ List.mem_append_left _ hk)
  have lone : LoneOpening word i := mem_loneOpenings.mp (split ▸ List.mem_concat_self)
  obtain ⟨frame, here⟩ := opens_iff.mp lone.1
  refine ⟨frame, ?_⟩
  rw [loneOpenings_closing, split, List.dropLast_concat, framesAt_concat inside, framesAt_append,
    framesAt_singleton here]

end

end Paren

end CallPath
