import Mathlib.Data.List.Rotate

/-!
Copies between lists that stay within them, and a buffer seen as a circle. Seen from a position, the
buffer is its rotation: what is read there is the rotation's beginning, and writing replaces it.
-/

namespace Data
open List

variable {α : Type} {buffer buffer' source : List α} {start count : Nat}

/-- Copies elements out of a buffer; none of the copies may leave it. -/
def copyOut (buffer : List α) (start count : Nat) : Option (List α) :=
  if start + count ≤ buffer.length then some ((buffer.drop start).take count) else none

/-- Copies elements into a buffer; none of the copies may leave it. -/
def copyIn (buffer : List α) (start : Nat) (source : List α) : Option (List α) :=
  if start + source.length ≤ buffer.length then
    some (buffer.take start ++ source ++ buffer.drop (start + source.length))
  else none

theorem copyOut_some (within : start + count ≤ buffer.length) :
    copyOut buffer start count = some ((buffer.drop start).take count) := if_pos within

theorem copyIn_some (within : start + source.length ≤ buffer.length) :
    copyIn buffer start source = some (buffer.take start ++ source ++ buffer.drop (start + source.length)) :=
  if_pos within

/-- Copies out of a buffer of some size around its end, in two parts at most. -/
def readAround (size : Nat) (buffer : List α) (start count : Nat) : Option (List α) := do
  let first := min count (size - start)
  let front ← copyOut buffer start first
  if first < count then
    let back ← copyOut buffer 0 (count - first)
    return front ++ back
  else return front

/-- Copies into a buffer of some size around its end, in two parts at most. -/
def writeAround (size : Nat) (buffer : List α) (start : Nat) (source : List α) : Option (List α) := do
  let first := min source.length (size - start)
  let buffer ← copyIn buffer start (source.take first)
  if first < source.length then copyIn buffer 0 (source.drop first) else return buffer

theorem readAround_rotate (inside : start < buffer.length) (short : count ≤ buffer.length) :
    readAround buffer.length buffer start count = some ((buffer.rotate start).take count) := by
  have turned := rotate_eq_drop_append_take (le_of_lt inside)
  have front : (buffer.drop start).length = buffer.length - start := length_drop
  unfold readAround
  dsimp only
  by_cases fits : count ≤ buffer.length - start
  · rw [Nat.min_eq_left fits, copyOut_some (by omega), turned, take_append_of_le_length (by omega)]
    simp
  have rest : count - (buffer.length - start) ≤ start := by omega
  rw [Nat.min_eq_right (by omega), copyOut_some (by omega), copyOut_some (by omega), turned, take_append, front,
    drop_zero, take_take, Nat.min_eq_left rest, take_of_length_le (le_of_eq front),
    take_of_length_le (show (buffer.drop start).length ≤ count by omega)]
  exact if_pos (by omega)

theorem writeAround_rotate (inside : start < buffer.length) (short : source.length ≤ buffer.length) :
    ∃ buffer', writeAround buffer.length buffer start source = some buffer' ∧ buffer'.length = buffer.length ∧
      buffer'.rotate start = source ++ (buffer.rotate start).drop source.length := by
  have turned := rotate_eq_drop_append_take (le_of_lt inside)
  have back : (buffer.take start).length = start := length_take_of_le (le_of_lt inside)
  have front : (buffer.drop start).length = buffer.length - start := length_drop
  unfold writeAround
  dsimp only
  by_cases fits : source.length ≤ buffer.length - start
  · rw [Nat.min_eq_left fits, take_of_length_le le_rfl, copyIn_some (by omega)]
    simp only [Option.bind_eq_bind, Option.bind_some, Nat.lt_irrefl, if_false]
    refine ⟨_, rfl, ?_, ?_⟩
    · simp only [length_append, length_drop, back]
      omega
    have split_ : buffer.take start ++ source ++ buffer.drop (start + source.length) =
        buffer.take start ++ (source ++ (buffer.drop start).drop source.length) := by
      rw [drop_drop, append_assoc]
    have turn := rotate_append_length_eq (buffer.take start) (source ++ (buffer.drop start).drop source.length)
    rw [back] at turn
    rw [split_, turn, turned, drop_append_of_le_length (by omega), append_assoc]
  · have whole : (source.take (buffer.length - start)).length = buffer.length - start :=
      length_take_of_le (by omega)
    have rest : (source.drop (buffer.length - start)).length = source.length - (buffer.length - start) := length_drop
    rw [Nat.min_eq_right (by omega), copyIn_some (by omega), whole,
      drop_eq_nil_of_le (show buffer.length ≤ start + (buffer.length - start) by omega), append_nil]
    simp only [Option.bind_eq_bind, Option.bind_some]
    rw [if_pos (by omega), copyIn_some (by rw [length_append, back]; omega), rest]
    refine ⟨_, rfl, ?_, ?_⟩
    · simp only [length_append, length_drop, length_take]
      omega
    -- What went around the end now lies before the position, in front of what it did not reach.
    have split_ : (buffer.take start ++ source.take (buffer.length - start)).take 0 ++
          source.drop (buffer.length - start) ++
        (buffer.take start ++ source.take (buffer.length - start)).drop
          (0 + (source.length - (buffer.length - start))) =
        (source.drop (buffer.length - start) ++
          (buffer.take start).drop (source.length - (buffer.length - start))) ++ source.take
            (buffer.length - start) := by
      rw [take_zero, nil_append, Nat.zero_add, drop_append_of_le_length (by omega), append_assoc]
    have size : (source.drop (buffer.length - start) ++
        (buffer.take start).drop (source.length - (buffer.length - start))).length = start := by
      rw [length_append, length_drop, length_drop, back]
      omega
    have turn := rotate_append_length_eq (source.drop (buffer.length - start) ++
      (buffer.take start).drop (source.length - (buffer.length - start))) (source.take (buffer.length - start))
    rw [size] at turn
    rw [split_, turn, turned, drop_append, drop_eq_nil_of_le (show (buffer.drop start).length ≤ source.length by omega),
      front, nil_append, ← append_assoc, take_append_drop]

end Data
