import Pyjamaz.Library.Octets

/-!
# Layouts of octets

Blocks of one width that are put one after another can be cut apart again, and what is cut out of a
piece can be cut out of the whole.  Octets of an even number are determined by their words of two.
-/

namespace Octets

variable {α : Type}

/-! ## Slices -/

lemma getElem?_slice {data : Octets} {i j n : ℕ} (h : n < j - i) :
    (slice data i j)[n]? = data[i + n]? := by
  rw [slice, List.getElem?_take_of_lt h, List.getElem?_drop]

lemma length_slice {data : Octets} {i j : ℕ} (h : j ≤ data.length) : (slice data i j).length = j - i := by
  rw [slice, List.length_take, List.length_drop]
  omega

/-- A slice of a slice. -/
lemma slice_slice {data : Octets} {a b i j : ℕ} (h : a + j ≤ b) :
    slice (slice data a b) i j = slice data (a + i) (a + j) := by
  rw [slice, slice, slice, List.drop_take, List.take_take, List.drop_drop]
  congr 1
  omega

/-! ## Blocks of one width -/

lemma length_flatMap_const {f : α → Octets} {w : ℕ} {xs : List α} (hf : ∀ x ∈ xs, (f x).length = w) :
    (xs.flatMap f).length = xs.length * w := by
  rw [List.length_flatMap, List.map_congr_left hf, List.map_const', List.sum_replicate_nat]

/-- A block of a concatenation. -/
lemma slice_flatMap {f : α → Octets} {w : ℕ} {xs : List α} (hf : ∀ x ∈ xs, (f x).length = w) {i : ℕ}
    (h : i < xs.length) : slice (xs.flatMap f) (i * w) ((i + 1) * w) = f xs[i] := by
  induction xs generalizing i with
  | nil => exact absurd h (Nat.not_lt_zero i)
  | cons x xs ih =>
    have hhead := hf x (List.mem_cons_self ..)
    have htail := fun y hy => hf y (List.mem_cons_of_mem x hy)
    rw [List.flatMap_cons]
    cases i with
    | zero =>
      rw [Nat.zero_mul, Nat.zero_add, Nat.one_mul, List.getElem_cons_zero]
      exact slice_append_left hhead.symm
    | succ i =>
      have hi : (i + 1) * w = i * w + w := Nat.succ_mul i w
      have hi' : (i + 1 + 1) * w = (i + 1) * w + w := Nat.succ_mul (i + 1) w
      rw [slice_append_right (by omega), hhead, hi', hi, Nat.add_sub_cancel, Nat.add_sub_cancel,
        List.getElem_cons_succ, ← hi]
      exact ih htail (Nat.lt_of_succ_lt_succ h)

/-! ## Words -/

/-- The two octets at a column. -/
def word (column : ℕ) (data : Octets) : Octets := slice data (2 * column) (2 * column + 2)

/-- Octets with the same words are the same. -/
lemma eq_of_word_eq {data data' : Octets} {k : ℕ} (h : data.length = 2 * k) (h' : data'.length = 2 * k)
    (hwords : ∀ column < k, word column data = word column data') : data = data' := by
  refine List.ext_getElem? (fun n => ?_)
  rcases Nat.lt_or_ge n (2 * k) with hn | hn
  · have hword := congrArg (fun w => w[n % 2]?) (hwords (n / 2) (by omega))
    simp only [word] at hword
    rwa [getElem?_slice (by omega), getElem?_slice (by omega), Nat.div_add_mod] at hword
  · rw [List.getElem?_eq_none (by omega), List.getElem?_eq_none (by omega)]

/-- A word of a slice that starts at a word. -/
lemma word_slice {data : Octets} {c d column : ℕ} (h : c + column < d) :
    word column (slice data (2 * c) (2 * d)) = word (c + column) data := by
  rw [word, slice_slice (by omega), word]
  congr 1 <;> omega

end Octets
