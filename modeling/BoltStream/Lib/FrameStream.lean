import Mathlib.Data.List.Basic

/-!
# Streams of frames

A stream carries frames one behind the other and says nothing of where one of them
ends.  A reader keeps its position in the stream.  When it stands at the start of a
frame it stays with the frames as long as it takes each of them in full, whatever
the pieces it takes and however many frames have been sent by then.
-/

namespace BoltStream.Lib

variable {α : Type*}

/-- Where the frame with number `k` starts. -/
def startOf (frames : List (List α)) (k : ℕ) : ℕ := (frames.take k).flatten.length

/-- The next `count` symbols, once that many are there. -/
def nextSymbols (stream : List α) (position count : ℕ) : Option (List α) :=
  if position + count ≤ stream.length then some ((stream.drop position).take count) else none

variable {frames more : List (List α)} {frame symbols : List α} {k m offset count : ℕ}

theorem startOf_append (hk : k ≤ frames.length) :
    startOf (frames ++ more) k = startOf frames k := by
  rw [startOf, startOf, List.take_append_of_le_length hk]

theorem startOf_mono (frames : List (List α)) (h : k ≤ m) :
    startOf frames k ≤ startOf frames m := by
  obtain ⟨d, rfl⟩ := Nat.exists_eq_add_of_le h
  rw [startOf, startOf, List.take_add, List.flatten_append, List.length_append]
  exact Nat.le_add_right _ _

theorem startOf_succ (h : frames[k]? = some frame) :
    startOf frames (k + 1) = startOf frames k + frame.length := by
  rw [startOf, startOf, List.take_add_one, h, List.flatten_append, List.length_append]
  simp

/-- A reader at the start of a frame finds symbols there only if the frame exists. -/
theorem exists_frame (h : startOf frames k < (frames.take m).flatten.length) :
    ∃ frame, frames[k]? = some frame := by
  by_contra hnone
  have hlong : frames.length ≤ k := by
    refine List.getElem?_eq_none_iff.mp ?_
    cases hframe : frames[k]? with
    | none => rfl
    | some frame => exact absurd ⟨frame, hframe⟩ hnone
  have hall : startOf frames m ≤ startOf frames k := by
    rcases Nat.le_total m k with hm | hm
    · exact startOf_mono frames hm
    · apply Nat.le_of_eq
      rw [startOf, startOf, List.take_of_length_le (Nat.le_trans hlong hm),
        List.take_of_length_le hlong]
  exact absurd h (Nat.not_lt.mpr hall)

/-- What a reader takes within a frame is that part of the frame, however much of the
stream is there. -/
theorem nextSymbols_within (hframe : frames[k]? = some frame)
    (hwithin : offset + count ≤ frame.length)
    (h : nextSymbols (frames.take m).flatten (startOf frames k + offset) count = some symbols) :
    symbols = (frame.drop offset).take count := by
  rw [nextSymbols] at h
  split_ifs at h with harrived
  obtain rfl := Option.some.inj h
  rcases Nat.lt_or_ge k m with hk | hk
  · obtain ⟨d, rfl⟩ := Nat.exists_eq_add_of_lt hk
    have hsplit : (frames.take (k + d + 1)).flatten =
        (frames.take k).flatten ++ (frame ++ ((frames.drop (k + 1)).take d).flatten) := by
      rw [show k + d + 1 = k + 1 + d from Nat.add_right_comm k d 1, List.take_add,
        List.take_add_one, hframe, List.flatten_append, List.flatten_append, List.append_assoc]
      simp
    rw [hsplit, startOf, List.drop_length_add_append, List.drop_append_of_le_length (by omega)]
    exact List.take_append_of_le_length (by rw [List.length_drop]; omega)
  · have hstart : startOf frames m ≤ startOf frames k := startOf_mono frames hk
    rw [startOf] at hstart
    obtain rfl : count = 0 := by omega
    rw [List.take_zero, List.take_zero]

end BoltStream.Lib
