import Mathlib.Data.List.Perm.Basic
import Mathlib.Data.Int.Basic

/-!
# The Fisher–Yates shuffle

A list is shuffled by a sequence of numbers: each takes the element at its remainder by the length,
puts the last element in its place and shortens the list.  A sequence at least as long as the list
permutes it (`shuffle_perm`).
-/

namespace FisherYates

open scoped List

variable {α : Type}

/-- The index that a number stands for in a list of a given length. -/
def itemIndex (item : ℤ) (length : ℕ) : ℕ := (item % length).toNat

lemma itemIndex_lt (item : ℤ) {length : ℕ} (h : length ≠ 0) : itemIndex item length < length := by
  have := Int.emod_lt_of_pos item (Int.natCast_pos.mpr (Nat.pos_of_ne_zero h))
  have := Int.emod_nonneg item (Int.natCast_ne_zero.mpr h)
  rw [itemIndex]
  omega

/-! ## The recursion -/

/-- What is left when the element at an index is taken: the last element stands in its place. -/
def remaining (data : List α) (index : ℕ) (h : index < data.length) : List α :=
  (data.set index (getElem data (data.length - 1) (by omega))).dropLast

/-- Take the element at the remainder by the length, replace it by the last one, go on with the
shortened list. -/
def shuffle : List α → List ℤ → List α
  | _, [] => []
  | data, item :: sequence =>
    if h : data.length = 0 then []
    else
      getElem data (itemIndex item data.length) (itemIndex_lt item h) ::
        shuffle (remaining data (itemIndex item data.length) (itemIndex_lt item h)) sequence

lemma length_remaining (data : List α) (index : ℕ) (h : index < data.length) :
    (remaining data index h).length = data.length - 1 := by
  rw [remaining, List.length_dropLast, List.length_set]

lemma remaining_congr {data : List α} {i j : ℕ} (hij : i = j) (h : i < data.length) :
    remaining data i h = remaining data j (hij ▸ h) := by
  subst hij
  rfl

/-! ## The shuffle permutes -/

/-- The element taken and what is left are the list. -/
lemma cons_remaining_perm (data : List α) (index : ℕ) (h : index < data.length) :
    (data[index] :: remaining data index h).Perm data := by
  obtain ⟨front, last, rfl⟩ : ∃ front last, data = front ++ [last] :=
    ⟨data.dropLast, data.getLast (List.ne_nil_of_length_pos (by omega)),
      (List.dropLast_append_getLast _).symm⟩
  have hlast : getElem (front ++ [last]) ((front ++ [last]).length - 1) (by omega) = last := by
    simp
  rw [remaining, hlast]
  rw [List.length_append, List.length_singleton] at h
  rcases Nat.lt_or_ge index front.length with hi | hi
  · rw [List.getElem_append_left hi, List.set_append_left _ _ hi, List.dropLast_concat]
    have hset : (front.set index last).Perm (last :: front.eraseIdx index) :=
      List.set_perm_cons_eraseIdx hi last
    have hfront : (front[index] :: front.eraseIdx index).Perm front :=
      List.getElem_cons_eraseIdx_perm hi
    calc front[index] :: front.set index last
      _ ~ front[index] :: last :: front.eraseIdx index := hset.cons _
      _ ~ last :: front[index] :: front.eraseIdx index := List.Perm.swap ..
      _ ~ last :: front := hfront.cons _
      _ ~ front ++ [last] := (List.perm_append_singleton ..).symm
  · obtain rfl : index = front.length := by omega
    rw [List.getElem_append_right (le_refl _), List.set_append_right _ _ (le_refl _)]
    simp only [Nat.sub_self, List.getElem_cons_zero, List.set_cons_zero, List.dropLast_concat]
    exact (List.perm_append_singleton ..).symm

/-- A sequence at least as long as the data shuffles all of it. -/
theorem shuffle_perm {data : List α} {sequence : List ℤ} (h : data.length ≤ sequence.length) :
    (shuffle data sequence).Perm data := by
  induction sequence generalizing data with
  | nil =>
    obtain rfl : data = [] := List.eq_nil_of_length_eq_zero (Nat.le_zero.mp h)
    rw [shuffle]
  | cons item sequence ih =>
    rw [shuffle]
    by_cases hnil : data.length = 0
    · rw [dif_pos hnil, List.eq_nil_of_length_eq_zero hnil]
    · rw [dif_neg hnil]
      have hlength : (remaining data _ (itemIndex_lt item hnil)).length ≤ sequence.length := by
        rw [length_remaining]
        rw [List.length_cons] at h
        omega
      have hrest := ih hlength
      exact (hrest.cons _).trans (cons_remaining_perm data _ _)

end FisherYates
