import Mathlib.Data.List.DropRight
import Mathlib.Tactic.Common

/-!
# Bounded windows

A list that keeps the last values of a sequence: a new value goes to the end, and when the list is then
too long its first value is dropped.  `push_rtake` says that the list is the end of the sequence
(`List.rtake`) for as long as it is used in this way only.
-/

namespace Window

variable {α β : Type*} {n : ℕ}

/-- A value is appended, and the oldest dropped when there are too many. -/
def push (n : ℕ) (xs : List α) (x : α) : List α :=
  if n < (xs ++ [x]).length then (xs ++ [x]).tail else xs ++ [x]

lemma length_rtake (xs : List α) (n : ℕ) : (xs.rtake n).length = min n xs.length := by
  rw [List.rtake, List.length_drop]
  omega

lemma rtake_of_length_le {xs : List α} (h : xs.length ≤ n) : xs.rtake n = xs := by
  rw [List.rtake, Nat.sub_eq_zero_of_le h, List.drop_zero]

/-- The window that follows a sequence. -/
lemma push_rtake (hn : 0 < n) (xs : List α) (x : α) :
    push n (xs.rtake n) x = (xs ++ [x]).rtake n := by
  have hlength : (xs.rtake n ++ [x]).length = min n xs.length + 1 := by
    rw [List.length_append, length_rtake, List.length_singleton]
  rw [push, hlength]
  by_cases h : n ≤ xs.length
  · rw [if_pos (by omega), List.rtake, List.rtake, List.length_append, List.length_singleton,
      List.tail_append_of_ne_nil (fun hnil => ?_), List.tail_drop,
      show xs.length + 1 - n = xs.length - n + 1 by omega,
      List.drop_append_of_le_length (by omega)]
    have hzero := congrArg List.length hnil
    rw [List.length_drop, List.length_nil] at hzero
    omega
  · rw [if_neg (by omega), rtake_of_length_le (by omega),
      rtake_of_length_le (by rw [List.length_append, List.length_singleton]; omega)]

/-- A window never holds more than its bound. -/
lemma length_push_le {xs : List α} (h : xs.length ≤ n) (x : α) : (push n xs x).length ≤ n := by
  have hlength : (xs ++ [x]).length = xs.length + 1 := by
    rw [List.length_append, List.length_singleton]
  rw [push]
  split
  · rw [List.length_tail]
    omega
  · omega

/-- A value comes into a window at most once. -/
lemma count_push_le [DecidableEq α] (xs : List α) (x a : α) :
    (push n xs x).count a ≤ xs.count a + if x = a then 1 else 0 := by
  have hsublist : (push n xs x).Sublist (xs ++ [x]) := by
    rw [push]
    split
    · exact List.tail_sublist _
    · exact List.Sublist.refl _
  refine (hsublist.count_le a).trans ?_
  rw [List.count_append, List.count_singleton]
  by_cases h : x = a
  · rw [if_pos h, if_pos (beq_iff_eq.mpr h)]
  · rw [if_neg h, if_neg (fun heq => h (beq_iff_eq.mp heq))]

/-- What stands in a window, and where in the sequence. -/
lemma mem_rtake_iff {xs : List α} {x : α} :
    x ∈ xs.rtake n ↔ ∃ i, xs[i]? = some x ∧ xs.length ≤ i + n := by
  rw [List.rtake, List.mem_iff_getElem?]
  constructor
  · rintro ⟨i, hi⟩
    rw [List.getElem?_drop] at hi
    exact ⟨xs.length - n + i, hi, by omega⟩
  · rintro ⟨i, hi, hle⟩
    refine ⟨i - (xs.length - n), ?_⟩
    rw [List.getElem?_drop, Nat.add_sub_cancel' (by omega)]
    exact hi

lemma map_rtake (f : α → β) (xs : List α) (n : ℕ) : (xs.rtake n).map f = (xs.map f).rtake n := by
  rw [List.rtake, List.rtake, List.map_drop, List.length_map]

end Window
