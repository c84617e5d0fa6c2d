import CallPath.Fault
import Mathlib.Data.List.Basic

/-!
# The wording of faults

A fault is reported in one sentence, and the sentence alone is enough to know the fault. This is
less plain than it looks. The name of a refused call is any text whatever, it stands at the
beginning, and nothing closes it off, so it may well read like the beginning of another sentence,
or like a whole one.

How a sentence ends is nobody's choice, though. A refused call ends in a word, a refused write in
a digit and a refused entry in a quotation mark (`Fault.getLast?_message`). So the last letter
tells the kind of a fault, and by then it is clear where its numbers and its name are to be found.
Numbers can be told from what follows them because that is no digit, and from each other because
each is written in one way only (`numeral?_eq_some`).

`Fault.ofMessage?` reads like this. It undoes `Fault.message` and takes nothing else for a
message.
-/

namespace CallPath

/-- The number that digits stand for, written as numbers are: with no zero in front. -/
def numeral? (digits : List Char) : Option Nat :=
  let n := Nat.ofDigitChars 10 digits 0
  if digits = Nat.toDigits 10 n then some n else none

theorem numeral?_eq_some {digits : List Char} {n : Nat} :
    numeral? digits = some n ↔ digits = Nat.toDigits 10 n := by
  unfold numeral?
  dsimp only
  constructor
  · intro h
    split at h
    · cases h
      assumption
    · cases h
  · rintro rfl
    rw [Nat.ofDigitChars_ten_toDigits, if_pos rfl]

namespace Fault

/-! ## Reading -/

/-- Reads a sentence about a call that needed a frame. -/
def ofRefusedCall? (cs : List Char) : Option Fault :=
  (cs.dropSuffix? " on empty call stack".toList).map (fun call => .emptyStack (.ofList call))

/-- Reads a sentence about an entry that went past the limit. -/
def ofReachedLimit? (cs : List Char) : Option Fault :=
  (cs.dropPrefix? "Maximum recursion depth exceeded \"".toList).bind (fun rest =>
    (rest.dropSuffix? ['"']).bind (fun digits => (numeral? digits).map .recursionLimit))

/-- Reads a sentence about a write past the bottom. -/
def ofRefusedWrite? (cs : List Char) : Option Fault :=
  (cs.dropPrefix? "Index out of bounds ".toList).bind (fun rest =>
    ((rest.dropWhile Char.isDigit).dropPrefix? ", call stack depth is ".toList).bind (fun digits =>
      (numeral? (rest.takeWhile Char.isDigit)).bind (fun index =>
        (numeral? digits).map (.outOfBounds index))))

/-- The fault that a sentence reports. Its last letter tells which kind it is. -/
def ofMessage? (text : String) : Option Fault :=
  match text.toList.getLast? with
  | some 'k' => ofRefusedCall? text.toList
  | some '"' => ofReachedLimit? text.toList
  | _ => ofRefusedWrite? text.toList

/-! ## What is written, letter by letter -/

theorem toList_message_emptyStack (call : String) :
    (emptyStack call).message.toList = call.toList ++ " on empty call stack".toList :=
  String.toList_append

theorem toList_message_recursionLimit (limit : Nat) :
    (recursionLimit limit).message.toList
      = "Maximum recursion depth exceeded \"".toList ++ (Nat.toDigits 10 limit ++ ['"']) := by
  show ("Maximum recursion depth exceeded \"" ++ toString limit ++ "\"").toList = _
  rw [String.toList_append, String.toList_append, Nat.toString_eq_repr, Nat.toList_repr,
    List.append_assoc]
  rfl

theorem toList_message_outOfBounds (index depth : Nat) :
    (outOfBounds index depth).message.toList
      = "Index out of bounds ".toList ++ (Nat.toDigits 10 index ++
          (", call stack depth is ".toList ++ Nat.toDigits 10 depth)) := by
  show ("Index out of bounds " ++ toString index ++ ", call stack depth is "
    ++ toString depth).toList = _
  rw [String.toList_append, String.toList_append, String.toList_append, Nat.toString_eq_repr,
    Nat.toString_eq_repr, Nat.toList_repr, Nat.toList_repr, List.append_assoc, List.append_assoc]

/-- **The last letter tells the kind.** -/
theorem getLast?_message (fault : Fault) :
    match fault with
    | emptyStack _ => fault.message.toList.getLast? = some 'k'
    | recursionLimit _ => fault.message.toList.getLast? = some '"'
    | outOfBounds _ _ => ∃ digit, digit.isDigit = true ∧
        fault.message.toList.getLast? = some digit := by
  cases fault with
  | emptyStack call =>
      show (emptyStack call).message.toList.getLast? = some 'k'
      rw [toList_message_emptyStack, List.getLast?_append]
      rfl
  | recursionLimit limit =>
      show (recursionLimit limit).message.toList.getLast? = some '"'
      rw [toList_message_recursionLimit, ← List.append_assoc, List.getLast?_concat]
  | outOfBounds index depth =>
      have written : Nat.toDigits 10 depth ≠ [] := Nat.toDigits_ne_nil
      refine ⟨_, Nat.isDigit_of_mem_toDigits (by decide) (by decide)
        (List.getLast_mem written), ?_⟩
      rw [toList_message_outOfBounds, ← List.append_assoc, ← List.append_assoc,
        List.getLast?_append, List.getLast?_eq_some_getLast written]
      rfl

/-! ## Reading undoes writing -/

theorem ofRefusedCall?_eq_some {cs : List Char} {fault : Fault} :
    ofRefusedCall? cs = some fault ↔
      ∃ call, fault = .emptyStack call ∧ cs = fault.message.toList := by
  rw [ofRefusedCall?, Option.map_eq_some_iff]
  simp only [List.dropSuffix?_eq_some_iff, beq_iff_eq]
  constructor
  · rintro ⟨call, ⟨_, split, rfl⟩, rfl⟩
    refine ⟨_, rfl, ?_⟩
    rw [toList_message_emptyStack, String.toList_ofList, split]
  · rintro ⟨call, rfl, rfl⟩
    exact ⟨call.toList, ⟨_, toList_message_emptyStack call, rfl⟩, by rw [String.ofList_toList]⟩

theorem ofReachedLimit?_eq_some {cs : List Char} {fault : Fault} :
    ofReachedLimit? cs = some fault ↔
      ∃ limit, fault = .recursionLimit limit ∧ cs = fault.message.toList := by
  simp only [ofReachedLimit?, Option.bind_eq_some_iff, Option.map_eq_some_iff,
    List.dropPrefix?_eq_some_iff, List.dropSuffix?_eq_some_iff, beq_iff_eq, numeral?_eq_some]
  constructor
  · rintro ⟨_, ⟨_, rfl, rfl⟩, digits, ⟨_, rfl, rfl⟩, limit, rfl, rfl⟩
    exact ⟨limit, rfl, (toList_message_recursionLimit limit).symm⟩
  · rintro ⟨limit, rfl, rfl⟩
    exact ⟨_, ⟨_, toList_message_recursionLimit limit, rfl⟩, _, ⟨_, rfl, rfl⟩, limit, rfl, rfl⟩

theorem ofRefusedWrite?_eq_some {cs : List Char} {fault : Fault} :
    ofRefusedWrite? cs = some fault ↔
      ∃ index depth, fault = .outOfBounds index depth ∧ cs = fault.message.toList := by
  simp only [ofRefusedWrite?, Option.bind_eq_some_iff, Option.map_eq_some_iff,
    List.dropPrefix?_eq_some_iff, beq_iff_eq, numeral?_eq_some]
  constructor
  · rintro ⟨rest, ⟨_, rfl, rfl⟩, digits, ⟨_, between, rfl⟩, index, before, depth, rfl, rfl⟩
    refine ⟨index, depth, rfl, ?_⟩
    rw [toList_message_outOfBounds, ← before, ← between, List.takeWhile_append_dropWhile]
  · rintro ⟨index, depth, rfl, rfl⟩
    -- the digits of the index end where the comma is
    have digits : ∀ c ∈ Nat.toDigits 10 index, c.isDigit = true :=
      fun c hc => Nat.isDigit_of_mem_toDigits (by decide) (by decide) hc
    refine ⟨_, ⟨_, toList_message_outOfBounds index depth, rfl⟩, _,
      ⟨_, ?_, rfl⟩, index, ?_, depth, rfl, rfl⟩
    · rw [List.dropWhile_append_of_pos digits]
      rfl
    · rw [List.takeWhile_append_of_pos digits]
      exact List.append_nil _

/-- **Reading takes back what was written,** and nothing else. -/
theorem ofMessage?_eq_some {text : String} {fault : Fault} :
    ofMessage? text = some fault ↔ text = fault.message := by
  rw [← String.toList_inj]
  constructor
  · intro reads
    unfold ofMessage? at reads
    split at reads
    · obtain ⟨_, _, same⟩ := ofRefusedCall?_eq_some.mp reads
      exact same
    · obtain ⟨_, _, same⟩ := ofReachedLimit?_eq_some.mp reads
      exact same
    · obtain ⟨_, _, _, same⟩ := ofRefusedWrite?_eq_some.mp reads
      exact same
  · intro same
    have last := getLast?_message fault
    unfold ofMessage?
    cases fault with
    | emptyStack call =>
        have last : text.toList.getLast? = some 'k' := same ▸ last
        rw [last]
        exact ofRefusedCall?_eq_some.mpr ⟨call, rfl, same⟩
    | recursionLimit limit =>
        have last : text.toList.getLast? = some '"' := same ▸ last
        rw [last]
        exact ofReachedLimit?_eq_some.mpr ⟨limit, rfl, same⟩
    | outOfBounds index depth =>
        obtain ⟨digit, isDigit, last⟩ := last
        have last : text.toList.getLast? = some digit := same ▸ last
        rw [last]
        split
        · rename_i letter
          cases letter
          exact absurd isDigit (by decide)
        · rename_i letter
          cases letter
          exact absurd isDigit (by decide)
        · exact ofRefusedWrite?_eq_some.mpr ⟨index, depth, rfl, same⟩

/-- A call may be named like the sentence about something else. -/
example :
    ofMessage? "Index out of bounds 3, call stack depth is 3 on empty call stack"
      = some (.emptyStack "Index out of bounds 3, call stack depth is 3") := by
  cbv

end Fault

/-- **A message tells its fault.** Two faults have the same message exactly if they are the same:
of one kind, about the same call, with the same numbers. And a fault can be read off: from every
message its own fault is read, whether it is internal with it, and nothing is read from a text
that is no message. Numbers are unbounded here, so this covers all that a machine word can hold,
and a call may have any name. -/
theorem messages_tell_faults (a b : Fault) :
    (a.message = b.message ↔ a = b) ∧
      (∀ text, Fault.ofMessage? text = some a ↔ text = a.message) ∧
      (Fault.ofMessage? a.message).map Fault.isInternal = some a.isInternal := by
  have read : Fault.ofMessage? a.message = some a := Fault.ofMessage?_eq_some.mpr rfl
  refine ⟨⟨fun same => ?_, congrArg Fault.message⟩, fun _ => Fault.ofMessage?_eq_some, ?_⟩
  · have alike : Fault.ofMessage? a.message = some b := Fault.ofMessage?_eq_some.mpr same
    exact Option.some.inj (read.symm.trans alike)
  · rw [read]
    rfl

end CallPath
